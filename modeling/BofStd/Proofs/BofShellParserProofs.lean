import BofStd.Lib.Tokens
import BofStd.Proofs.ReadLineProofs

/-!
# Command lines and their commands
-/

namespace BofStd.BofShell

open StdString Regex

variable {P V : Type} {d d' : ShellData P V} {name cmd key : Text} {texts names : List Text} {callback : Callback V}
  {args : List (ShellArg P V)}

/-! ## The regular expression -/

theorem allMatches_item_eq_nil {p : UInt8 → Bool} {s : Text} (h : ∀ c ∈ s.head?, p c = false) (r : Regex UInt8) :
    ((item p).seq r).allMatches s = [] := by
  apply allMatches_seq_eq_nil
  cases s with
  | nil => rfl
  | cons c s => rw [allMatches_item, if_neg (by simp [h c rfl])]

/-- The last parenthesis that opens, and the last one that closes. -/
theorem firstMatch_regExFnArg {front args : Text} (hfront : ∀ c ∈ front, isAny c = true)
    (hargs : ∀ c ∈ args, isAny c = true ∧ c ≠ '('.toUInt8) :
    (regExFnArg.firstMatch (front ++ '('.toUInt8 :: (args ++ [')'.toUInt8]))).map Match.groups =
      some [front, args] := by
  have hclose : (args ++ [')'.toUInt8]).takeWhile isAny = args ++ [')'.toUInt8] := by
    rw [List.takeWhile_eq_self_iff]
    intro c hc
    rcases List.mem_append.mp hc with hc | hc
    · exact (hargs c hc).1
    · rw [List.mem_singleton.mp hc]
      rfl
  have hall : (front ++ '('.toUInt8 :: (args ++ [')'.toUInt8])).takeWhile isAny =
      front ++ '('.toUInt8 :: (args ++ [')'.toUInt8]) := by
    rw [List.takeWhile_append_of_pos hfront, List.takeWhile_cons, if_pos (by rfl), hclose]
  -- behind the arguments, only the last item is left
  have hinner : ((many 0 isAny).group.seq (item fun c => c = ')'.toUInt8)).firstMatch (args ++ [')'.toUInt8]) =
      some ⟨args ++ [')'.toUInt8], [args], []⟩ := by
    have hone : (item fun c : UInt8 => c = ')'.toUInt8).firstMatch ((args ++ [')'.toUInt8]).drop args.length) =
        some ⟨[')'.toUInt8], [], []⟩ := by
      rw [List.drop_left]
      rfl
    rw [firstMatch_many_seq (k := args.length) (by rw [hclose]; simp) ?_ hone, List.take_left]
    · rfl
    · intro j hj hjn
      rw [hclose, List.length_append, List.length_singleton] at hjn
      obtain rfl : j = args.length + 1 := by omega
      rw [List.drop_of_length_le (by simp)]
      rfl
  have hopen : ((item fun c : UInt8 => c = '('.toUInt8).seq
      ((many 0 isAny).group.seq (item fun c => c = ')'.toUInt8))).firstMatch
        ((front ++ '('.toUInt8 :: (args ++ [')'.toUInt8])).drop front.length) =
      some ⟨'('.toUInt8 :: (args ++ [')'.toUInt8]), [args], []⟩ := by
    rw [List.drop_left]
    exact firstMatch_seq (firstMatch_item (by simp)) hinner
  rw [regExFnArg, firstMatch_many_seq (k := front.length) (by rw [hall]; simp) ?_ hopen, List.take_left]
  · rfl
  · intro j hj hjn
    apply allMatches_item_eq_nil
    intro c hc
    -- behind the first parenthesis there is no other one
    have hmem : c ∈ args ++ [')'.toUInt8] := by
      have hdrop : (front ++ '('.toUInt8 :: (args ++ [')'.toUInt8])).drop j =
          (args ++ [')'.toUInt8]).drop (j - front.length - 1) := by
        obtain ⟨i, rfl⟩ : ∃ i, j = front.length + (i + 1) := ⟨j - front.length - 1, by omega⟩
        rw [← List.drop_drop, List.drop_left, List.drop_succ_cons]
        congr 1
        omega
      rw [hdrop] at hc
      exact List.mem_of_mem_drop (List.mem_of_mem_head? hc)
    simp only [decide_eq_false_iff_not]
    rcases List.mem_append.mp hmem with hc' | hc'
    · exact (hargs c hc').2
    · rw [List.mem_singleton.mp hc']
      decide

/-- What is written is read. -/
theorem splitCmd_printCmd (h : Printable name texts) : splitCmd (printCmd name texts) = (name, texts) := by
  have hargs : ∀ c ∈ [','.toUInt8].intercalate texts, isAny c = true ∧ c ≠ '('.toUInt8 := by
    intro c hc
    rcases Tokens.mem_intercalate hc with rfl | ⟨text, htext, hc⟩
    · decide
    · obtain ⟨hany, hopen, -⟩ := h.texts_any text htext c hc
      exact ⟨hany, hopen⟩
  rw [splitCmd, printCmd, firstMatch_regExFnArg h.name_any hargs]
  dsimp only
  rw [h.name_trim, h.args_trim]
  by_cases hnil : texts = []
  · subst hnil
    rfl
  · have hsplit : stringSplit ([','.toUInt8].intercalate texts) [','.toUInt8] = texts := by
      refine Tokens.splitOnP_intercalate (by simp) ?_ hnil
      intro text htext c hc
      have hcomma := (h.texts_any text htext c hc).2.2.1
      simpa using hcomma
    have htrim : texts.map trimQuotes = texts := (List.map_congr_left h.texts_trim).trans (List.map_id' texts)
    rw [hsplit, htrim, if_neg h.ne]

/-! ## The collections -/

section maps

variable {α : Type} {m : List (Text × α)} {k : Text} {y : α}

@[simp] theorem find_nil (k : Text) : find ([] : List (Text × α)) k = none := rfl

theorem find_cons (e : Text × α) (m : List (Text × α)) (k : Text) :
    find (e :: m) k = if e.1 = k then some e.2 else find m k := by
  unfold find
  by_cases h : e.1 = k
  · rw [List.find?_cons_of_pos (by simpa using h), if_pos h, Option.map_some]
  · rw [List.find?_cons_of_neg (by simpa using h), if_neg h]

theorem find_append (m m' : List (Text × α)) (k : Text) : find (m ++ m') k = (find m k).or (find m' k) := by
  induction m with
  | nil => rfl
  | cons e m ih =>
    rw [List.cons_append, find_cons, find_cons, ih]
    split <;> rfl

theorem find_replace (m : List (Text × α)) (key k : Text) (y : α) :
    find (m.map fun e => if e.1 = key then (key, y) else e) k =
      if k = key then (find m k).map fun _ => y else find m k := by
  induction m with
  | nil => simp
  | cons e m ih =>
    rw [List.map_cons, find_cons, find_cons, ih]
    by_cases hkey : e.1 = key
    · simp only [hkey, if_true]
      by_cases hk : k = key
      · simp [hk]
      · simp [hk, Ne.symm hk]
    · simp only [hkey, if_false]
      by_cases hk : k = key
      · subst hk
        simp [hkey]
      · simp [hk]

/-- An assignment changes the entry of its key. -/
theorem find_assign (m : List (Text × α)) (key k : Text) (y : α) :
    find (assign m key y) k = if k = key then some y else find m k := by
  unfold assign
  split
  · next h =>
    rw [find_replace]
    split
    · next hk =>
      rw [hk]
      obtain ⟨z, hz⟩ := Option.isSome_iff_exists.mp h
      rw [hz, Option.map_some]
    · rfl
  · next h =>
    rw [find_append, find_cons, find_nil]
    by_cases hk : k = key
    · subst hk
      rw [Option.not_isSome_iff_eq_none.mp h, Option.none_or, if_pos rfl]
    · rw [if_neg (Ne.symm hk), if_neg hk, Option.or_none]

end maps

@[simp] theorem withPrefix_twice (cmd name : Text) : withPrefix cmd (withPrefix cmd name) = withPrefix cmd name := by
  by_cases h : argPrefix cmd <+: name
  · rw [withPrefix, withPrefix, if_pos h, if_pos h]
  · rw [withPrefix, withPrefix, if_neg h, if_pos (List.prefix_append _ _)]

/-! ## The arguments -/

/-- The names mean the same, however far the loop has come. -/
theorem parseArgs_names (collection : List (Text × ShellArg P V)) (cmd : Text) (names texts : List Text) (x : P × V) :
    (parseArgs collection cmd names texts x).2.1.map (withPrefix cmd) = names.map (withPrefix cmd) := by
  induction names generalizing texts x with
  | nil => cases texts <;> rfl
  | cons name names ih =>
    cases texts with
    | nil => rfl
    | cons text texts =>
      rw [parseArgs]
      dsimp only
      split
      · simp
      · split
        · simp [ih]
        · simp

/-- Each argument has its text parsed. -/
theorem parseArgs_eq {collection : List (Text × ShellArg P V)}
    (hnames : (names.map (withPrefix cmd)).map (find collection) = args.map some) (hlength : texts.length = args.length)
    (htexts : ∀ text ∈ texts, cStr text = text) (x : P × V) :
    (parseArgs collection cmd names texts x).1 = (callArgs (args.zip texts) x).1 ∧
      (parseArgs collection cmd names texts x).2.2 = (callArgs (args.zip texts) x).2 := by
  induction names generalizing args texts x with
  | nil =>
    obtain rfl : args = [] := by simpa using hnames.symm
    simp [parseArgs, callArgs]
  | cons name names ih =>
    cases args with
    | nil => cases hnames
    | cons arg args =>
      cases texts with
      | nil => cases hlength
      | cons text texts =>
        obtain ⟨hfind, hrest⟩ := List.cons.inj hnames
        obtain ⟨htext, htexts⟩ := List.forall_mem_cons.mp htexts
        rw [parseArgs, List.zip_cons_cons, callArgs, hfind, Option.some_or, htext]
        dsimp only
        split
        · exact ih hrest (Nat.succ.inj hlength) htexts (arg text x).2
        · exact ⟨rfl, rfl⟩

/-! ## The call of a command -/

/-- Whatever the command line is, all commands stay registered. -/
theorem parser_keepsCommands (d : ShellData P V) (shellCmd : Text) : KeepsCommands d (parser d shellCmd).2.2 := by
  intro name' callback' args' h
  unfold parser
  dsimp only
  cases hcmd : find d.mShellCmdCollection (splitCmd shellCmd).1 with
  | none => exact h
  | some entry =>
    dsimp only
    split
    · have hmap := parseArgs_names d.mShellArgCollection (splitCmd shellCmd).1 entry.ArgNameCollection
        (splitCmd shellCmd).2 (d.mScriptPath, d.outside)
      generalize parseArgs d.mShellArgCollection (splitCmd shellCmd).1 entry.ArgNameCollection (splitCmd shellCmd).2
        (d.mScriptPath, d.outside) = r at hmap
      have hkeep : Registered { d with
          mShellCmdCollection := assign d.mShellCmdCollection (splitCmd shellCmd).1
            { entry with ArgNameCollection := r.2.1 }
          mScriptPath := r.2.2.1
          outside := r.2.2.2 } name' callback' args' := by
        obtain ⟨names, hentry, hargs⟩ := h
        by_cases hname : name' = (splitCmd shellCmd).1
        · rw [← hname] at hcmd hmap
          obtain rfl := Option.some.inj (hcmd.symm.trans hentry)
          exact ⟨r.2.1, by rw [find_assign, if_pos hname], by rw [hmap]; exact hargs⟩
        · exact ⟨names, by rw [find_assign, if_neg hname]; exact hentry, hargs⟩
      split <;> exact hkeep
    · exact h

/-- A command that is called with all of its arguments: their texts are parsed in their order, and the command is called
unless one of them is refused. -/
theorem parser_registered (h : Registered d name callback args) (hprint : Printable name texts)
    (hlength : texts.length = args.length) :
    ∃ d', parser d (printCmd name texts) =
        ((callArgs (args.zip texts) (d.mScriptPath, d.outside)).1,
          if (callArgs (args.zip texts) (d.mScriptPath, d.outside)).1 = .noError then some callback else none, d') ∧
      (d'.mScriptPath, d'.outside) = (callArgs (args.zip texts) (d.mScriptPath, d.outside)).2 ∧
      d'.mScriptFilename_S = d.mScriptFilename_S ∧ KeepsCommands d d' := by
  obtain ⟨names, hcmd, hnames⟩ := h
  have htexts : ∀ text ∈ texts, cStr text = text := by
    intro text htext
    apply ReadLine.cStr_eq_self
    intro hzero
    exact (hprint.texts_any text htext 0 hzero).2.2.2 rfl
  have hlengths : texts.length = names.length := by
    have hlen := congrArg List.length hnames
    simp only [List.length_map] at hlen
    omega
  have hkeeps := parser_keepsCommands d (printCmd name texts)
  obtain ⟨herr, hvars⟩ := parseArgs_eq hnames hlength htexts (d.mScriptPath, d.outside)
  rw [parser, splitCmd_printCmd hprint] at hkeeps ⊢
  dsimp only at hkeeps ⊢
  rw [hcmd] at hkeeps ⊢
  dsimp only at hkeeps ⊢
  rw [if_pos hlengths, herr, hvars] at hkeeps ⊢
  split
  · next hnone =>
    rw [if_pos hnone] at hkeeps
    refine ⟨_, ?_, ?_, ?_, hkeeps⟩
    · rw [hnone]
    all_goals rfl
  · next hsome =>
    rw [if_neg hsome] at hkeeps
    refine ⟨_, ?_, ?_, ?_, hkeeps⟩
    all_goals rfl

/-- A shell whose only command is `exec`. -/
def execData (scriptPath scriptFilename : Text) : ShellData Text Unit where
  mShellCmdCollection := [("exec".toList.map Char.toUInt8, ⟨["exec::Script".toList.map Char.toUInt8], .exec⟩)]
  mShellArgCollection := [("exec::Script".toList.map Char.toUInt8, fun text x => (.noError, text, x.2))]
  mScriptPath := scriptPath
  mScriptFilename_S := scriptFilename
  outside := ()

/-- `exec(s)` -/
theorem parser_registered_exec :
    ∃ d', parser (execData [] []) ("exec(s)".toList.map Char.toUInt8) = (.noError, some .exec, d') ∧
      (d'.mScriptPath, d'.outside) = (['s'.toUInt8], ()) ∧ d'.mScriptFilename_S = [] ∧
      KeepsCommands (execData [] []) d' :=
  have hprint : Printable ("exec".toList.map Char.toUInt8) [['s'.toUInt8]] := by
    refine ⟨rfl, List.all_eq_true.mp rfl, ?_, ?_, rfl, by simp⟩
    · intro text htext c hc
      obtain rfl := List.mem_singleton.mp htext
      obtain rfl := List.mem_singleton.mp hc
      decide
    · intro text htext
      obtain rfl := List.mem_singleton.mp htext
      rfl
  have hexec : Registered (execData [] []) ("exec".toList.map Char.toUInt8) .exec
      [fun text x => (.noError, text, x.2)] := ⟨["exec::Script".toList.map Char.toUInt8], rfl, rfl⟩
  parser_registered hexec hprint rfl

/-! ## Registration -/

theorem addCommandArgument_eq {argName : Text} {arg : ShellArg P V}
    (h : addCommandArgument d name argName arg = (.noError, d')) (hname : stringTrim name = name)
    (harg : stringTrim argName = argName) {entry : ShellCmd V} (hentry : find d.mShellCmdCollection name = some entry)
    (hmem : argName ∈ entry.ArgNameCollection) :
    d' = { d with mShellArgCollection := assign d.mShellArgCollection (withPrefix name argName) arg } := by
  rw [addCommandArgument, hname] at h
  dsimp only at h
  rw [hentry] at h
  dsimp only at h
  rw [harg, if_pos hmem] at h
  split at h
  · exact (Prod.mk.inj h).2.symm
  · cases h

/-- The arguments that are added can be found. -/
theorem addArguments_eq {rest : List (Text × ShellArg P V)} (h : addArguments name rest d = some d')
    (hname : stringTrim name = name) {entry : ShellCmd V} (hentry : find d.mShellCmdCollection name = some entry)
    (hrest : ∀ e ∈ rest, stringTrim e.1 = e.1 ∧ e.1 ∈ entry.ArgNameCollection) :
    d'.mShellCmdCollection = d.mShellCmdCollection ∧
      (∀ key, key ∉ rest.map (fun e => withPrefix name e.1) →
        find d'.mShellArgCollection key = find d.mShellArgCollection key) ∧
      ((rest.map fun e => withPrefix name e.1).Nodup →
        (rest.map fun e => find d'.mShellArgCollection (withPrefix name e.1)) = rest.map fun e => some e.2) := by
  induction rest generalizing d with
  | nil =>
    cases h
    exact ⟨rfl, fun _ _ => rfl, fun _ => rfl⟩
  | cons e rest ih =>
    obtain ⟨argName, arg⟩ := e
    obtain ⟨⟨htrim, hmem⟩, htail⟩ := List.forall_mem_cons.mp hrest
    rw [addArguments] at h
    cases hadd : addCommandArgument d name argName arg with
    | mk err d₁ =>
      rw [hadd] at h
      cases err with
      | noError =>
        have hd₁ := addCommandArgument_eq hadd hname htrim hentry hmem
        obtain ⟨hcmd, hother, hown⟩ := ih h (by rw [hd₁]; exact hentry) htail
        rw [hd₁] at hcmd hother
        refine ⟨hcmd, ?_, ?_⟩
        · intro key hkey
          rw [List.map_cons, List.mem_cons, not_or] at hkey
          rw [hother key hkey.2, find_assign, if_neg hkey.1]
        · intro hnodup
          rw [List.map_cons, List.nodup_cons] at hnodup
          rw [List.map_cons, List.map_cons, hown hnodup.2, hother _ hnodup.1, find_assign, if_pos rfl]
      | _ => cases h

/-- A command that is added with all of its arguments is registered. -/
theorem addCommand_registered {d₁ d₂ : ShellData P V} (hname : stringTrim name = name)
    (hnames : ∀ argName ∈ names, stringTrim argName = argName) (hnodup : (names.map (withPrefix name)).Nodup)
    (hlength : names.length = args.length) (hcmd : addCommand d name ⟨names, callback⟩ = (.noError, d₁))
    (hargs : addArguments name (names.zip args) d₁ = some d₂) : Registered d₂ name callback args := by
  rw [addCommand, hname] at hcmd
  split at hcmd
  · cases hcmd
  · next hnew =>
    obtain rfl := (Prod.mk.inj hcmd).2
    have hentry : find (d.mShellCmdCollection ++ [(name, (⟨names, callback⟩ : ShellCmd V))]) name =
        some ⟨names, callback⟩ := by
      rw [find_append, Option.not_isSome_iff_eq_none.mp hnew, Option.none_or, find_cons, if_pos rfl]
    have hfst : (names.zip args).map Prod.fst = names := List.map_fst_zip hlength.le
    have hsnd : (names.zip args).map Prod.snd = args := List.map_snd_zip hlength.ge
    have hkeys : (names.zip args).map (fun e => withPrefix name e.1) = names.map (withPrefix name) := by
      rw [← hfst, List.map_map, hfst]
      rfl
    have hmem : ∀ e ∈ names.zip args, stringTrim e.1 = e.1 ∧ e.1 ∈ names := by
      intro e he
      have hin : e.1 ∈ names := (List.of_mem_zip he).1
      exact ⟨hnames _ hin, hin⟩
    obtain ⟨hsame, -, hown⟩ := addArguments_eq hargs hname hentry hmem
    refine ⟨names, by rw [hsame]; exact hentry, ?_⟩
    have hfound := hown (by rw [hkeys]; exact hnodup)
    rw [← hkeys, List.map_map]
    refine hfound.trans ?_
    rw [← hsnd, List.map_map, hsnd]
    rfl

/-- `AddCommand` and `AddCommandArgument` of `exec` -/
theorem addCommand_registered_exec :
    Registered (⟨[("exec".toList.map Char.toUInt8, ⟨["Script".toList.map Char.toUInt8], .exec⟩)],
        [("exec::Script".toList.map Char.toUInt8, fun text x => (.noError, text, x.2))], [], [], ()⟩ :
        ShellData Text Unit) ("exec".toList.map Char.toUInt8) .exec [fun text x => (.noError, text, x.2)] := by
  have hcmd : addCommand (⟨[], [], [], [], ()⟩ : ShellData Text Unit) ("exec".toList.map Char.toUInt8)
      ⟨["Script".toList.map Char.toUInt8], .exec⟩ =
        (.noError, ⟨[("exec".toList.map Char.toUInt8, ⟨["Script".toList.map Char.toUInt8], .exec⟩)], [], [], [], ()⟩) :=
    rfl
  refine addCommand_registered rfl ?_ ?_ rfl hcmd rfl
  · intro argName hmem
    obtain rfl := List.mem_singleton.mp hmem
    rfl
  · exact List.nodup_singleton _

end BofStd.BofShell
