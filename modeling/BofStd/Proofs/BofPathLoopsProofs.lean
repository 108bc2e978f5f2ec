import BofStd.BofPathSpec
import BofStd.Proofs.BofPathProofs
import BofStd.Proofs.BofStringProofs

/-!
# The loops of `Normalize` come to their end

The two loops that reduce a path always end, with the result of `collapse` and of `resolve`. The loop over the dots
ends unless it meets a dot alone, which it leaves as it is.
-/

namespace BofStd.BofPath

variable {pwd up path s : Text} {c : UInt8} {rounds : Nat} {cwd : Option Text} {forb raw : Text} {pure : Bool}

/-! ## The dots at the start -/

theorem not_dotAlone_of_head? (h : path.head? ≠ some '.'.toUInt8) : ¬ DotAlone pwd path := by
  rintro ⟨parts, rest, rfl, hparts, -⟩
  apply h
  cases parts with
  | nil => rfl
  | cons part parts =>
    rcases hparts part List.mem_cons_self with rfl | ⟨c, rfl⟩
    · rfl
    · rfl

theorem dotAlone_here (hslash : s.head? ≠ some '/'.toUInt8) (hdot : s.head? ≠ some '.'.toUInt8) :
    DotAlone pwd ('.'.toUInt8 :: s) := ⟨[], s, rfl, nofun, rfl, hslash, hdot⟩

theorem dotAlone_slash : DotAlone pwd ('.'.toUInt8 :: '/'.toUInt8 :: s) ↔ DotAlone pwd s := by
  constructor
  · rintro ⟨parts, rest, heq, hparts, hclimb, hslash, hdot⟩
    cases parts with
    | nil =>
      obtain rfl := (List.cons.inj heq).2
      exact absurd rfl hslash
    | cons part parts =>
      rcases hparts part List.mem_cons_self with rfl | ⟨c, rfl⟩
      · refine ⟨parts, rest, ?_, fun p hp => hparts p (List.mem_cons_of_mem _ hp), ?_, hslash, hdot⟩
        · exact (List.cons.inj (List.cons.inj heq).2).2
        · rwa [List.countP_cons_of_neg (by decide)] at hclimb
      · exact absurd (List.cons.inj (List.cons.inj heq).2).1 (by decide)
  · rintro ⟨parts, rest, rfl, hparts, hclimb, hslash, hdot⟩
    refine ⟨['.'.toUInt8, '/'.toUInt8] :: parts, rest, rfl, ?_, ?_, hslash, hdot⟩
    · intro p hp
      rcases List.mem_cons.mp hp with rfl | hp
      · exact .inl rfl
      · exact hparts p hp
    · rwa [List.countP_cons_of_neg (by decide)]

/-- The parts of a path that begins with two dots begin with these. -/
theorem DotAlone.cons_dotDot (h : DotAlone pwd ('.'.toUInt8 :: '.'.toUInt8 :: s)) :
    ∃ c t, s = c :: t ∧ ∃ up, parentDirectory pwd = .ok up ∧ DotAlone up t := by
  obtain ⟨parts, rest, heq, hparts, hclimb, hslash, hdot⟩ := h
  cases parts with
  | nil =>
    obtain rfl := (List.cons.inj heq).2
    exact absurd rfl hdot
  | cons part parts =>
    rcases hparts part List.mem_cons_self with rfl | ⟨c, rfl⟩
    · exact absurd (List.cons.inj (List.cons.inj heq).2).1 (by decide)
    · have hs := (List.cons.inj (List.cons.inj heq).2).2
      refine ⟨c, _, hs, ?_⟩
      rw [List.countP_cons_of_pos (by simp), climb] at hclimb
      cases hup : parentDirectory pwd with
      | error err =>
        rw [hup] at hclimb
        cases hclimb
      | ok up =>
        rw [hup] at hclimb
        exact ⟨up, rfl, parts, rest, rfl, fun p hp => hparts p (List.mem_cons_of_mem _ hp), hclimb, hslash, hdot⟩

theorem dotAlone_dotDot (hup : parentDirectory pwd = .ok up) (h : DotAlone up s) (c : UInt8) :
    DotAlone pwd ('.'.toUInt8 :: '.'.toUInt8 :: c :: s) := by
  obtain ⟨parts, rest, rfl, hparts, hclimb, hslash, hdot⟩ := h
  refine ⟨['.'.toUInt8, '.'.toUInt8, c] :: parts, rest, rfl, ?_, ?_, hslash, hdot⟩
  · intro p hp
    rcases List.mem_cons.mp hp with rfl | hp
    · exact .inr ⟨c, rfl⟩
    · exact hparts p hp
  · rw [List.countP_cons_of_pos (by simp), climb, hup]
    exact hclimb

/-- The ways in which the loop may go on. -/
inductive Begins (pwd : Text) : Text → Prop
  | plain (path : Text) (h : path.head? ≠ some '.'.toUInt8) : Begins pwd path
  | slash (s : Text) : Begins pwd ('.'.toUInt8 :: '/'.toUInt8 :: s)
  | refused (s : Text) (err : BofErr) (h : parentDirectory pwd = .error err) :
    Begins pwd ('.'.toUInt8 :: '.'.toUInt8 :: s)
  | short (up : Text) (h : parentDirectory pwd = .ok up) : Begins pwd ['.'.toUInt8, '.'.toUInt8]
  | up (up : Text) (c : UInt8) (s : Text) (h : parentDirectory pwd = .ok up) :
    Begins pwd ('.'.toUInt8 :: '.'.toUInt8 :: c :: s)
  | alone (s : Text) (hslash : s.head? ≠ some '/'.toUInt8) (hdot : s.head? ≠ some '.'.toUInt8) :
    Begins pwd ('.'.toUInt8 :: s)

theorem begins (pwd path : Text) : Begins pwd path := by
  by_cases hhead : path.head? = some '.'.toUInt8
  · obtain ⟨s, rfl⟩ := List.head?_eq_some_iff.mp hhead
    by_cases hslash : s.head? = some '/'.toUInt8
    · obtain ⟨s, rfl⟩ := List.head?_eq_some_iff.mp hslash
      exact .slash s
    by_cases hdot : s.head? = some '.'.toUInt8
    · obtain ⟨s, rfl⟩ := List.head?_eq_some_iff.mp hdot
      cases hup : parentDirectory pwd with
      | error err => exact .refused s err hup
      | ok up =>
        cases s with
        | nil => exact .short up hup
        | cons c s => exact .up up c s hup
    · exact .alone s hslash hdot
  · exact .plain path hhead

theorem dotLoopRun_plain (h : path.head? ≠ some '.'.toUInt8) :
    dotLoopRun (rounds + 1) pwd path = some (.returns (.ok (pwd, path))) := if_neg h

theorem dotLoopRun_slash :
    dotLoopRun (rounds + 1) pwd ('.'.toUInt8 :: '/'.toUInt8 :: s) = dotLoopRun rounds pwd s := rfl

theorem dotLoopRun_dotDot : dotLoopRun (rounds + 1) pwd ('.'.toUInt8 :: '.'.toUInt8 :: s) =
    match parentDirectory pwd with
    | .error err => some (.returns (.error err))
    | .ok pwd => if 3 ≤ s.length + 2 then dotLoopRun rounds pwd (s.drop 1) else some .throws := rfl

theorem dotLoopRun_refused {err : BofErr} (h : parentDirectory pwd = .error err) :
    dotLoopRun (rounds + 1) pwd ('.'.toUInt8 :: '.'.toUInt8 :: s) = some (.returns (.error err)) := by
  rw [dotLoopRun_dotDot, h]

theorem dotLoopRun_short (h : parentDirectory pwd = .ok up) :
    dotLoopRun (rounds + 1) pwd ['.'.toUInt8, '.'.toUInt8] = some .throws := by
  rw [dotLoopRun_dotDot, h]
  rfl

theorem dotLoopRun_up (h : parentDirectory pwd = .ok up) :
    dotLoopRun (rounds + 1) pwd ('.'.toUInt8 :: '.'.toUInt8 :: c :: s) = dotLoopRun rounds up s := by
  rw [dotLoopRun_dotDot, h]
  exact if_pos (Nat.le_add_left 3 _)

theorem dotLoopRun_alone (hslash : s.head? ≠ some '/'.toUInt8) (hdot : s.head? ≠ some '.'.toUInt8) :
    dotLoopRun (rounds + 1) pwd ('.'.toUInt8 :: s) = dotLoopRun rounds pwd ('.'.toUInt8 :: s) := by
  have hnext : ('.'.toUInt8 :: s)[1]? = s.head? := by cases s <;> rfl
  rw [dotLoopRun, if_pos (List.head?_cons), hnext, if_neg hslash, if_neg hdot]

/-- A loop that comes to its end did not meet a dot alone. -/
theorem not_dotAlone_of_dotLoopRun {ending : Ending (Except BofErr (Text × Text))}
    (h : dotLoopRun rounds pwd path = some ending) : ¬ DotAlone pwd path := by
  induction rounds generalizing pwd path with
  | zero => cases h
  | succ rounds ih =>
    cases begins pwd path with
    | plain _ hhead => exact not_dotAlone_of_head? hhead
    | slash s =>
      rw [dotAlone_slash]
      exact ih (dotLoopRun_slash ▸ h)
    | refused s err herr =>
      intro halone
      obtain ⟨-, -, -, up, hup, -⟩ := halone.cons_dotDot
      rw [herr] at hup
      cases hup
    | short =>
      intro halone
      obtain ⟨c, t, hnil, -⟩ := halone.cons_dotDot
      cases hnil
    | up up c s hup =>
      intro halone
      obtain ⟨c', t, hs, up', hup', halone'⟩ := halone.cons_dotDot
      obtain ⟨rfl, rfl⟩ := List.cons.inj hs
      obtain rfl := Except.ok.inj (hup.symm.trans hup')
      exact ih (dotLoopRun_up hup ▸ h) halone'
    | alone s hslash hdot =>
      -- the round has changed nothing
      rw [dotLoopRun_alone hslash hdot] at h
      exact ih h

theorem dotLoop_plain (h : path.head? ≠ some '.'.toUInt8) : dotLoop pwd path = some (.ok (pwd, path)) := by
  cases path with
  | nil => rfl
  | cons c s =>
    rw [dotLoop.eq_def]
    exact if_pos fun hc => h (congrArg some hc)

theorem dotLoop_slash : dotLoop pwd ('.'.toUInt8 :: '/'.toUInt8 :: s) = dotLoop pwd s := by
  rw [dotLoop.eq_def]
  exact (if_neg (not_not_intro rfl)).trans (if_pos rfl)

theorem dotLoop_dotDot : dotLoop pwd ('.'.toUInt8 :: '.'.toUInt8 :: s) =
    match parentDirectory pwd, s with
    | .error err, _ => some (.error err)
    | .ok _, [] => none
    | .ok pwd, _ :: s => dotLoop pwd s := by
  rw [dotLoop.eq_def]
  exact (if_neg (not_not_intro rfl)).trans ((if_neg (by decide)).trans (if_pos rfl))

theorem dotLoop_refused {err : BofErr} (h : parentDirectory pwd = .error err) :
    dotLoop pwd ('.'.toUInt8 :: '.'.toUInt8 :: s) = some (.error err) := by
  rw [dotLoop_dotDot, h]

theorem dotLoop_short (h : parentDirectory pwd = .ok up) : dotLoop pwd ['.'.toUInt8, '.'.toUInt8] = none := by
  rw [dotLoop_dotDot, h]

theorem dotLoop_up (h : parentDirectory pwd = .ok up) :
    dotLoop pwd ('.'.toUInt8 :: '.'.toUInt8 :: c :: s) = dotLoop up s := by
  rw [dotLoop_dotDot, h]

theorem dotLoop_alone (hslash : s.head? ≠ some '/'.toUInt8) (hdot : s.head? ≠ some '.'.toUInt8) :
    dotLoop pwd ('.'.toUInt8 :: s) = none := by
  rw [dotLoop.eq_def]
  refine (if_neg (not_not_intro rfl)).trans ?_
  cases s with
  | nil => rfl
  | cons c s => exact (if_neg fun hc => hslash (congrArg some hc)).trans (if_neg fun hc => hdot (congrArg some hc))

theorem dotLoop_of_dotAlone (h : DotAlone pwd path) : dotLoop pwd path = none := by
  induction hn : path.length using Nat.strong_induction_on generalizing pwd path with
  | h n ih =>
    cases begins pwd path with
    | plain _ hhead => exact absurd h (not_dotAlone_of_head? hhead)
    | slash s =>
      rw [List.length_cons, List.length_cons] at hn
      rw [dotLoop_slash]
      exact ih s.length (by omega) (dotAlone_slash.mp h) rfl
    | refused s err herr =>
      obtain ⟨-, -, -, up, hup, -⟩ := h.cons_dotDot
      rw [herr] at hup
      cases hup
    | short up hup => exact dotLoop_short hup
    | up up c s hup =>
      obtain ⟨c', t, hs, up', hup', halone⟩ := h.cons_dotDot
      obtain ⟨rfl, rfl⟩ := List.cons.inj hs
      obtain rfl := Except.ok.inj (hup.symm.trans hup')
      rw [List.length_cons, List.length_cons, List.length_cons] at hn
      rw [dotLoop_up hup]
      exact ih s.length (by omega) halone rfl
    | alone s hslash hdot => exact dotLoop_alone hslash hdot

/-- Without a dot alone there is a round for each part at most. -/
theorem dotLoopRun_eq (h : ¬ DotAlone pwd path) (hrounds : path.length < rounds) :
    dotLoopRun rounds pwd path = some ((dotLoop pwd path).elim .throws .returns) := by
  induction rounds generalizing pwd path with
  | zero => exact absurd hrounds (Nat.not_lt_zero _)
  | succ rounds ih =>
    cases begins pwd path with
    | plain _ hhead => rw [dotLoopRun_plain hhead, dotLoop_plain hhead, Option.elim_some]
    | slash s =>
      rw [List.length_cons, List.length_cons] at hrounds
      rw [dotLoopRun_slash, dotLoop_slash]
      exact ih (dotAlone_slash.not.mp h) (by omega)
    | refused s err herr => rw [dotLoopRun_refused herr, dotLoop_refused herr, Option.elim_some]
    | short up hup => rw [dotLoopRun_short hup, dotLoop_short hup, Option.elim_none]
    | up up c s hup =>
      rw [List.length_cons, List.length_cons, List.length_cons] at hrounds
      rw [dotLoopRun_up hup, dotLoop_up hup]
      exact ih (fun halone => h (dotAlone_dotDot hup halone c)) (by omega)
    | alone s hslash hdot => exact absurd (dotAlone_here hslash hdot) h

/-! ## The slashes -/

/-- What is left of a text behind the character `prev`. -/
def eraseBehind : UInt8 → Text → Text
  | _, [] => []
  | prev, c :: s => if prev = '/'.toUInt8 ∧ c = '/'.toUInt8 then eraseBehind prev s else c :: eraseBehind c s

theorem slashLoop_eq (rounds : Nat) (done rest : Text) (prev : UInt8) (hrounds : rest.length < rounds) :
    slashLoop rounds (done ++ rest) done.length prev = some (done ++ eraseBehind prev rest) := by
  induction rounds generalizing done rest prev with
  | zero => exact absurd hrounds (Nat.not_lt_zero _)
  | succ rounds ih =>
    cases rest with
    | nil =>
      rw [List.append_nil, slashLoop, List.getElem?_eq_none (Nat.le_refl _), eraseBehind, List.append_nil]
    | cons c s =>
      have hrounds' : s.length < rounds := Nat.lt_of_succ_lt_succ hrounds
      rw [slashLoop, List.getElem?_append_right (Nat.le_refl _), Nat.sub_self, List.getElem?_cons_zero, eraseBehind]
      dsimp only
      split
      · rw [List.eraseIdx_append_of_length_le (Nat.le_refl _), Nat.sub_self, List.eraseIdx_cons_zero]
        exact ih done s prev hrounds'
      · have hnext := ih (done ++ [c]) s c hrounds'
        rw [List.append_assoc, List.append_assoc, List.length_append, List.length_singleton] at hnext
        exact hnext

theorem cons_eraseBehind (c : UInt8) (s : Text) : c :: eraseBehind c s = collapse (c :: s) := by
  induction s generalizing c with
  | nil =>
    rw [collapse, if_neg (by simp)]
    rfl
  | cons e s ih =>
    rw [eraseBehind, collapse]
    by_cases h : c = '/'.toUInt8 ∧ e = '/'.toUInt8
    · obtain ⟨rfl, rfl⟩ := h
      rw [if_pos ⟨rfl, rfl⟩, if_pos ⟨rfl, rfl⟩, ih]
    · have h' : ¬ (c = '/'.toUInt8 ∧ (e :: s).head? = some '/'.toUInt8) := fun hce =>
        h ⟨hce.1, Option.some.inj hce.2⟩
      rw [if_neg h, if_neg h', ih]

/-- The loop that erases slashes ends with one slash for each run of slashes. -/
theorem slashLoop_path (hrounds : path.length < rounds) :
    slashLoop rounds path 0 (~~~path.headD 0) = some (collapse path) := by
  have hloop := slashLoop_eq rounds [] path (~~~path.headD 0) hrounds
  rw [List.nil_append, List.length_nil, List.nil_append] at hloop
  rw [hloop]
  cases path with
  | nil => rfl
  | cons c s =>
    rw [← cons_eraseBehind, List.headD_cons, eraseBehind, if_neg]
    rintro ⟨hprev, rfl⟩
    exact absurd hprev (by decide)

/-! ## The tokens -/

section Tokens

variable {before rest : List Text} {token : Text}

/-- The pairs that `std::adjacent_find` looks at. -/
def isPair (pair : Text × Text) : Bool := pair.1 ≠ dotDot ∧ pair.2 = dotDot

/-- The iterator moves to the first token that is followed by `..`; nothing happens to the tokens that it leaves
behind. -/
theorem resolve_findIdx? (before : List Text) (token : Text) (rest : List Text) :
    match ((token :: rest).zip rest).findIdx? isPair with
    | none => resolve before token rest = some (before.reverse ++ token :: rest)
    | some i => ∃ mid last rest', token :: rest = mid ++ last :: dotDot :: rest' ∧ mid.length = i ∧ last ≠ dotDot ∧
        resolve before token rest = resolve (mid.reverse ++ before) last (dotDot :: rest') := by
  induction rest generalizing before token with
  | nil => rfl
  | cons next rest ih =>
    rw [List.zip_cons_cons, List.findIdx?_cons]
    by_cases hpair : token ≠ dotDot ∧ next = dotDot
    · obtain ⟨htoken, rfl⟩ := hpair
      have hfound : isPair (token, dotDot) = true := decide_eq_true ⟨htoken, rfl⟩
      rw [hfound]
      exact ⟨[], token, rest, rfl, rfl, htoken, rfl⟩
    · have hnot : isPair (token, next) = false := decide_eq_false hpair
      have ih := ih (token :: before) next
      rw [hnot, resolve_shift hpair]
      cases hnext : ((next :: rest).zip rest).findIdx? isPair with
      | none =>
        rw [hnext] at ih
        rw [List.reverse_cons, List.append_assoc, List.singleton_append] at ih
        exact ih
      | some i =>
        rw [hnext] at ih
        obtain ⟨mid, last, rest', hmid, rfl, hlast, hresolve⟩ := ih
        refine ⟨token :: mid, last, rest', congrArg (token :: ·) hmid, rfl, hlast, ?_⟩
        rw [hresolve, List.reverse_cons, List.append_assoc, List.singleton_append]

theorem adjacentFind_eq (before : List Text) (token : Text) (rest : List Text) :
    adjacentFind (before.reverse ++ token :: rest) before.length =
      (((token :: rest).zip rest).findIdx? isPair).map (before.length + ·) := by
  have hdrop : (before.reverse ++ token :: rest).drop before.length = token :: rest := by
    rw [← List.length_reverse, List.drop_left]
  rw [adjacentFind, ← List.drop_drop, hdrop]
  rfl

/-- The loop that erases pairs ends with the tokens of `resolve`. -/
theorem dotDotLoop_eq (rounds : Nat) (before : List Text) (token : Text) (rest : List Text)
    (hrounds : rest.length < rounds) : dotDotLoop rounds (before.reverse ++ token :: rest) before.length =
      some ((resolve before token rest).elim (.error .underrun) .ok) := by
  induction rounds generalizing before token rest with
  | zero => exact absurd hrounds (Nat.not_lt_zero _)
  | succ rounds ih =>
    have hresolve := resolve_findIdx? before token rest
    rw [dotDotLoop, adjacentFind_eq]
    cases hfind : ((token :: rest).zip rest).findIdx? isPair with
    | none =>
      rw [hfind] at hresolve
      rw [hresolve]
      rfl
    | some i =>
      rw [hfind] at hresolve
      obtain ⟨mid, last, rest', hmid, rfl, hlast, hresolve⟩ := hresolve
      have hsplit : before.reverse ++ token :: rest = (mid.reverse ++ before).reverse ++ last :: dotDot :: rest' := by
        rw [hmid, List.reverse_append, List.reverse_reverse, List.append_assoc]
      have hlen : before.length + mid.length = (mid.reverse ++ before).length := by
        rw [List.length_append, List.length_reverse, Nat.add_comm]
      have hrest : rest'.length < rounds := by
        have htotal := congrArg List.length hmid
        rw [List.length_cons, List.length_append, List.length_cons, List.length_cons] at htotal
        omega
      rw [hresolve, Option.map_some, hsplit, hlen]
      dsimp only
      cases hbefore : mid.reverse ++ before with
      | nil => rw [List.length_nil, if_pos rfl, resolve_first ⟨hlast, rfl⟩, Option.elim_none]
      | cons prev before' =>
        -- the iterator steps back to the token before the pair
        have htake : ((prev :: before').reverse ++ last :: dotDot :: rest').take (prev :: before').length =
            (prev :: before').reverse := by
          rw [← List.length_reverse, List.take_left]
        have hdrop : ((prev :: before').reverse ++ last :: dotDot :: rest').drop ((prev :: before').length + 2) =
            rest' := by
          rw [← List.drop_drop, ← List.length_reverse, List.drop_left]
          rfl
        have hne : (prev :: before').length ≠ 0 := Nat.succ_ne_zero _
        rw [if_neg hne, htake, hdrop, resolve_pop ⟨hlast, rfl⟩, ← ih before' prev rest' hrest,
          List.reverse_cons, List.append_assoc, List.singleton_append, List.length_cons, Nat.add_sub_cancel]

end Tokens

theorem dotDotLoop_tokens {tokens : List Text}
    (htokens : (stringSplit (collapse path) ['/'.toUInt8]).filter (fun token => token ≠ ['.'.toUInt8]) = tokens)
    (hrounds : tokens.length ≤ rounds) :
    (if 1 < tokens.length then dotDotLoop rounds tokens 0 else some (.ok tokens)) =
      some ((reduceTokens path).elim (.error .underrun) .ok) := by
  rw [reduceTokens, htokens]
  rcases tokens with _ | ⟨token, _ | ⟨next, rest⟩⟩
  · rfl
  · rfl
  · have hlen : 1 < (token :: next :: rest).length := Nat.succ_lt_succ (Nat.succ_pos _)
    rw [if_pos hlen]
    exact dotDotLoop_eq rounds [] token (next :: rest) hrounds

/-- Both loops that reduce a path end, with the reduced path. -/
theorem reducePathRun_eq (hrounds : path.length < rounds) : reducePathRun rounds path = some (reducePath path) := by
  unfold reducePathRun reducePath
  split
  · rfl
  rw [slashLoop_path hrounds, Option.bind_some, BofString.stringSplit_eq, Option.bind_some]
  generalize htokens : (stringSplit (collapse path) ['/'.toUInt8]).filter (fun token => token ≠ ['.'.toUInt8]) = tokens
  have hlen : tokens.length ≤ rounds := by
    have hcount : (collapse path).countP (fun c => decide (c ∈ ['/'.toUInt8])) ≤ path.length :=
      List.countP_le_length.trans (collapse_sublist path).length_le
    have hfilter : tokens.length ≤ (stringSplit (collapse path) ['/'.toUInt8]).length :=
      htokens ▸ List.length_filter_le _ _
    rw [stringSplit, Tokens.length_splitOnP] at hfilter
    omega
  dsimp only
  rw [dotDotLoop_tokens htokens hlen, Option.map_some]
  cases reduceTokens path with
  | none => rfl
  | some tokens =>
    dsimp only [Option.elim_some]
    rw [BofString.stringJoin_eq]

/-! ## `Normalize` -/

theorem stringTrim_length_le (s : Text) : (stringTrim s).length ≤ s.length :=
  (List.dropWhile_sublist _).length_le.trans (length_trimEnd_le s)

/-- Where the dots are not a dot alone, the first part ends. -/
theorem locateRun_eq (h : ¬ Hangs cwd raw) (hrounds : raw.length < rounds) :
    locateRun rounds cwd pure raw = some ((locate cwd pure raw).elim .throws .returns) := by
  unfold locateRun locate
  by_cases hctl : stringIsPresent raw [7, 12, 10, 13, 9, 11]
  · rw [if_pos hctl, if_pos hctl, Option.elim_some]
  rw [if_neg hctl, if_neg hctl]
  by_cases hempty : stringTrim raw = []
  · rw [if_pos hempty, if_pos hempty, Option.elim_some]
  rw [if_neg hempty, if_neg hempty]
  cases cwd with
  | none => rfl
  | some dir =>
    dsimp only [Option.map_some]
    by_cases hslash : '/'.toUInt8 ∉ stringReplace (stringTrim raw)
    · rw [if_pos hslash, if_pos hslash, Option.elim_some]
    rw [if_neg hslash, if_neg hslash]
    by_cases hdot : (stringReplace (stringTrim raw)).head? = some '.'.toUInt8
    · have halone : ¬ DotAlone (stringReplace dir) (stringReplace (stringTrim raw)) := fun halone =>
        h ⟨Bool.eq_false_iff.mpr hctl, not_not.mp hslash, dir, rfl, halone⟩
      have hlen : (stringReplace (stringTrim raw)).length < rounds := by
        rw [length_stringReplace]
        exact (stringTrim_length_le raw).trans_lt hrounds
      rw [if_pos hdot, if_pos hdot, dotLoopRun_eq halone hlen]
      cases dotLoop (stringReplace dir) (stringReplace (stringTrim raw)) <;> rfl
    · rw [if_neg hdot, if_neg hdot, Option.elim_some]

/-- On a dot alone the first part never ends. -/
theorem locateRun_of_hangs (h : Hangs cwd raw) (pure : Bool) (rounds : Nat) :
    locateRun rounds cwd pure raw = none ∧ locate cwd pure raw = none := by
  obtain ⟨hctl, hslash, dir, hdir, halone⟩ := h
  obtain rfl := Option.mem_def.mp hdir
  have hempty : stringTrim raw ≠ [] := stringTrim_ne_nil hslash
  have hdot : (stringReplace (stringTrim raw)).head? = some '.'.toUInt8 := by
    by_contra hhead
    exact not_dotAlone_of_head? hhead halone
  have hloop : dotLoopRun rounds (stringReplace dir) (stringReplace (stringTrim raw)) = none := by
    by_contra hsome
    obtain ⟨ending, hending⟩ := Option.ne_none_iff_exists'.mp hsome
    exact not_dotAlone_of_dotLoopRun hending halone
  unfold locateRun locate
  rw [if_neg (Bool.eq_false_iff.mp hctl), if_neg hempty, if_neg (Bool.eq_false_iff.mp hctl), if_neg hempty]
  dsimp only [Option.map_some]
  rw [if_neg (not_not_intro hslash), if_pos hdot, hloop, if_neg (not_not_intro hslash), if_pos hdot,
    dotLoop_of_dotAlone halone]
  exact ⟨rfl, rfl⟩

theorem normalizeRun_of_hangs (h : Hangs cwd raw) (forb : Text) (pure : Bool) (rounds : Nat) :
    normalizeRun rounds cwd forb pure raw = none ∧ normalize cwd forb pure raw = none := by
  obtain ⟨hrun, hlocate⟩ := locateRun_of_hangs h pure rounds
  rw [normalizeRun, normalize, hrun, hlocate]
  exact ⟨rfl, rfl⟩

/-- With enough rounds, `Normalize` ends as `normalize` says. -/
theorem normalizeRun_eq (h : ¬ Hangs cwd raw) (forb : Text) (pure : Bool) : ∃ enough, ∀ rounds, enough ≤ rounds →
    normalizeRun rounds cwd forb pure raw = some ((normalize cwd forb pure raw).elim .throws .returns) := by
  cases hlocate : locate cwd pure raw with
  | none =>
    refine ⟨raw.length + 1, fun rounds hrounds => ?_⟩
    rw [normalizeRun, normalize, locateRun_eq h hrounds, hlocate]
    rfl
  | some located =>
    cases located with
    | error err =>
      refine ⟨raw.length + 1, fun rounds hrounds => ?_⟩
      rw [normalizeRun, normalize, locateRun_eq h hrounds, hlocate]
      rfl
    | ok located =>
      obtain ⟨pwd, path⟩ := located
      refine ⟨raw.length + 1 + ((absolute pure pwd path).2.length + 1), fun rounds hrounds => ?_⟩
      rw [normalizeRun, normalize, locateRun_eq h (by omega), hlocate, Option.elim_some, Option.bind_some,
        Option.map_some, Option.elim_some]
      dsimp only
      split
      · rfl
      split
      · rfl
      split
      · rfl
      rw [reducePathRun_eq (by omega), Option.map_some]

/-- The loops of `Normalize` come to their end exactly if the dots at the start do not lead to a dot alone. -/
theorem terminates_iff (cwd : Option Text) (forb : Text) (pure : Bool) (raw : Text) :
    Terminates cwd forb pure raw ↔ ¬ Hangs cwd raw := by
  constructor
  · rintro ⟨rounds, ending, hrun⟩ h
    rw [(normalizeRun_of_hangs h forb pure rounds).1] at hrun
    cases hrun
  · intro h
    obtain ⟨enough, hrun⟩ := normalizeRun_eq h forb pure
    exact ⟨enough, _, hrun enough (Nat.le_refl _)⟩

/-- The hidden file `.a/b`. -/
theorem not_terminates_hidden : ¬ Terminates (some ['/'.toUInt8]) defaultForbiddenChar false
    ['.'.toUInt8, 'a'.toUInt8, '/'.toUInt8, 'b'.toUInt8] := by
  rintro ⟨rounds, ending, hrun⟩
  have h : Hangs (some ['/'.toUInt8]) ['.'.toUInt8, 'a'.toUInt8, '/'.toUInt8, 'b'.toUInt8] :=
    ⟨by decide, by decide, ['/'.toUInt8], rfl, dotAlone_here (by decide) (by decide)⟩
  rw [(normalizeRun_of_hangs h _ _ rounds).1] at hrun
  cases hrun

end BofStd.BofPath
