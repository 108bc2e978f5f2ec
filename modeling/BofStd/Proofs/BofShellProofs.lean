import BofStd.Proofs.BofShellParserProofs

/-!
# The interpreter is one loop
-/

namespace BofStd.BofShell

open ReadLine Retry StdString Session

variable {P V : Type} {param : ShellParam P V} {d d' : ShellData P V} {line rest cmdLine : Text} {err : ShellErr}
  {fin ex one : Bool} {io : Option Text} {rounds : Nat} {x : BofShell P V}
  {i : BofShell P V → Option (ShellErr × BofShell P V)}

/-! ## One command line -/

theorem report_eq (err : ShellErr) :
    (if err = .noError then (⟨fin, ex, one, io, d⟩ : BofShell P V) else send param (.error err) ⟨fin, ex, one, io, d⟩) =
      ⟨fin, ex, one, io, report param err d⟩ := by
  unfold report
  split <;> rfl

theorem runCommand_done (h : effect param d cmdLine = .done err d') :
    ∃ d₀, d' = report param err d₀ ∧
      ∀ fin ex one io i, runCommand param i ⟨fin, ex, one, io, d⟩ cmdLine = some (err, ⟨fin, ex, one, io, d₀⟩) := by
  unfold effect at h
  unfold runCommand
  split at h
  · next hskip =>
    obtain ⟨rfl, rfl⟩ := Effect.done.inj h
    exact ⟨d, by rw [report, if_pos rfl], fun _ _ _ _ _ => by rw [if_pos hskip]⟩
  · next hskip =>
    simp only [if_neg hskip]
    dsimp only at h
    generalize parser d (cStr cmdLine) = r at h ⊢
    obtain ⟨e, callback, d₁⟩ := r
    rcases callback with _ | (_ | _ | run)
    · obtain ⟨rfl, rfl⟩ := Effect.done.inj h
      exact ⟨d₁, rfl, fun _ _ _ _ _ => rfl⟩
    · cases h
    · cases h
    · obtain ⟨rfl, rfl⟩ := Effect.done.inj h
      refine ⟨_, rfl, fun fin ex one io i => ?_⟩
      simp only [callCommand, Option.map_some]
      congr 2
      split <;> rfl

theorem runCommand_quit (h : effect param d cmdLine = .quit d') :
    runCommand param i ⟨fin, ex, one, io, d⟩ cmdLine = some (.noError, ⟨true, ex, one, io, d'⟩) := by
  unfold effect at h
  unfold runCommand
  split at h
  · cases h
  · next hskip =>
    rw [if_neg hskip]
    dsimp only at h ⊢
    generalize parser d (cStr cmdLine) = r at h ⊢
    obtain ⟨e, callback, d₁⟩ := r
    rcases callback with _ | (_ | _ | run)
    · cases h
    · obtain rfl := Effect.quit.inj h
      rfl
    · cases h
    · cases h

/-- The script that `exec` executes, once the open one is closed. -/
def descend (param : ShellParam P V) (rounds : Nat) (fin one : Bool) (d : ShellData P V) : Option (BofShell P V) :=
  let d := nameScript param d
  if d.mScriptFilename_S = [] then some ⟨fin, false, one, none, d⟩
  else (loop param rounds ⟨param.InputStream.isNone ∨ one, true, one, none, d⟩ [] false).map Prod.snd

theorem runCommand_exec (h : effect param d cmdLine = .exec d') (hio : io = none → ex = false) :
    runCommand param (fun x => loop param rounds (setFinish param x) [] false) ⟨fin, ex, one, io, d⟩ cmdLine =
      (descend param rounds fin one d').map fun x => (.noError, x) := by
  unfold effect at h
  unfold runCommand
  split at h
  · cases h
  · next hskip =>
    rw [if_neg hskip]
    dsimp only at h ⊢
    generalize parser d (cStr cmdLine) = r at h ⊢
    obtain ⟨e, callback, d₁⟩ := r
    rcases callback with _ | (_ | _ | run)
    · cases h
    · cases h
    · obtain rfl := Effect.exec.inj h
      have hclose : (if io.isSome then closeScript ⟨fin, ex, one, io, d₁⟩ else ⟨fin, ex, one, io, d₁⟩ : BofShell P V) =
          ⟨fin, false, one, none, d₁⟩ := by
        cases io with
        | none => rw [hio rfl]; rfl
        | some content => rfl
      simp only [callCommand, shellExec, hclose, Option.map_map]
      unfold execScriptWith descend nameScript
      dsimp only
      by_cases hname : param.FileNameWithExtension d₁.mScriptPath = []
      · simp [hname]
      · simp only [hname, ne_eq, not_false_eq_true, decide_true, if_true, if_false, Option.map_map]
        rfl
    · cases h

/-! ## One round -/

/-- The next line of a script is read, and the loop goes on. -/
def resume (param : ShellParam P V) (rounds : Nat) (one : Bool) (rest : Text) (d : ShellData P V) :
    Option (ShellErr × BofShell P V) :=
  match readLine rest with
  | none => some (.noError, ⟨true, false, one, none, d⟩)
  | some (line, rest) =>
    loop param rounds ⟨false, true, one, some rest, tell param (.line d.mScriptFilename_S (stringTrim line)) d⟩
      (stringTrim line) false

/-- Behind an `exec`. -/
def resumeExec (param : ShellParam P V) (rounds : Nat) (fin one : Bool) (cmdLine : Text) (d : ShellData P V) :
    Option (ShellErr × BofShell P V) :=
  (descend param rounds fin one d).bind fun x =>
    if x.mFinish_B then some (.noError, x) else loop param rounds x cmdLine false

/-- The loop goes on unless it is over. -/
def goOn (param : ShellParam P V) (rounds : Nat) (next : Bool × ShellErr × Text × BofShell P V) :
    Option (ShellErr × BofShell P V) :=
  if next.1 then some (next.2.1, next.2.2.2) else loop param rounds next.2.2.2 next.2.2.1 false

theorem loop_succ (rounds : Nat) (x : BofShell P V) (cmdLine : Text) (first : Bool) :
    loop param (rounds + 1) x cmdLine first =
      (runCommand param (fun x => loop param rounds (setFinish param x) [] false) (readInput param x cmdLine first).2
        (readInput param x cmdLine first).1).bind fun r =>
          goOn param rounds (afterCommand param r.2 (readInput param x cmdLine first).1 r.1) := rfl

@[simp] theorem readInput_script (cmdLine : Text) (first : Bool) :
    readInput param ⟨fin, true, one, io, d⟩ cmdLine first = (cmdLine, ⟨fin, true, one, io, d⟩) := rfl

theorem openScript_open (rest : Text) (d : ShellData P V) :
    openScript param ⟨fin, true, one, some rest, d⟩ = (.noError, ⟨fin, true, one, some rest, d⟩) := rfl

theorem readScript_open (rest cmdLine : Text) (d : ShellData P V) :
    readScript param ⟨fin, true, one, some rest, d⟩ cmdLine =
      match readLine rest with
      | none => (cmdLine, ⟨fin, false, one, none, d⟩)
      | some (line, rest) =>
        (stringTrim line,
          ⟨fin, true, one, some rest, tell param (.line d.mScriptFilename_S (stringTrim line)) d⟩) := by
  unfold readScript
  dsimp only
  cases readLine rest <;> rfl

theorem nextLine_eq (x : BofShell P V) (cmdLine : Text) :
    nextLine param x cmdLine =
      ((openScript param x).1, (readScript param (openScript param x).2 cmdLine).1,
        { (readScript param (openScript param x).2 cmdLine).2 with
          mFinish_B := !(readScript param (openScript param x).2 cmdLine).2.mExecScript_B }) := rfl

/-- The rest of a round with an open script. -/
theorem goOn_open (param : ShellParam P V) (rounds : Nat) (fin one : Bool) (rest cmdLine : Text) (d : ShellData P V) :
    goOn param rounds ((nextLine param ⟨fin, true, one, some rest, d⟩ cmdLine).2.2.mFinish_B,
      nextLine param ⟨fin, true, one, some rest, d⟩ cmdLine) = resume param rounds one rest d := by
  rw [nextLine_eq, openScript_open, readScript_open, resume]
  cases readLine rest <;> rfl

theorem afterCommand_script (err : ShellErr) (rest cmdLine : Text) (d : ShellData P V) :
    goOn param rounds (afterCommand param ⟨fin, true, one, some rest, d⟩ cmdLine err) =
      if err ≠ .noError ∧ param.ScriptStopOnError_B then some (err, ⟨fin, false, one, none, report param err d⟩)
      else resume param rounds one rest (report param err d) := by
  unfold afterCommand
  rw [report_eq]
  dsimp only
  simp only [true_and]
  split
  · rfl
  · exact goOn_open param rounds fin one rest cmdLine _

theorem afterCommand_idle (err : ShellErr) (cmdLine : Text) {x : BofShell P V} (h : x.mExecScript_B = false) :
    afterCommand param x cmdLine err =
      (x.mFinish_B, err, cmdLine, if err = .noError then x else send param (.error err) x) := by
  unfold afterCommand
  have hsend : (if err = .noError then x else send param (.error err) x).mExecScript_B = false := by
    split <;> exact h
  have hfinish : (if err = .noError then x else send param (.error err) x).mFinish_B = x.mFinish_B := by
    split <;> rfl
  dsimp only
  rw [hsend, if_neg (by simp)]
  simp only [Bool.false_eq_true, if_false, hfinish]

theorem loop_script_done (h : effect param d line = .done err d') :
    loop param (rounds + 1) ⟨false, true, one, some rest, d⟩ line false =
      if err ≠ .noError ∧ param.ScriptStopOnError_B then some (err, ⟨false, false, one, none, d'⟩)
      else resume param rounds one rest d' := by
  obtain ⟨d₀, rfl, hrun⟩ := runCommand_done h
  rw [loop_succ, readInput_script, hrun, Option.bind_some, afterCommand_script]

theorem loop_script_quit (h : effect param d line = .quit d') :
    loop param (rounds + 1) ⟨false, true, one, some rest, d⟩ line false = resume param rounds one rest d' := by
  rw [loop_succ, readInput_script, runCommand_quit h, Option.bind_some, afterCommand_script, if_neg (by simp), report,
    if_pos rfl]

theorem afterCommand_over {x : BofShell P V} (h : (afterCommand param x cmdLine err).1 = true) :
    (afterCommand param x cmdLine err).2.2.2.mExecScript_B = false := by
  unfold afterCommand at h ⊢
  generalize (if err = .noError then x else send param (.error err) x) = y at h ⊢
  dsimp only at h ⊢
  split
  · rfl
  · next hstop =>
    rw [if_neg hstop] at h
    cases hexec : y.mExecScript_B with
    | true =>
      rw [hexec, if_pos rfl, nextLine_eq] at h
      rw [if_pos rfl, nextLine_eq]
      simpa using h
    | false =>
      rw [if_neg Bool.false_ne_true]
      exact hexec

/-- No script is executed any more when the loop is over. -/
theorem loop_idle {x x' : BofShell P V} {first : Bool} (h : loop param rounds x cmdLine first = some (err, x')) :
    x'.mExecScript_B = false := by
  induction rounds generalizing x cmdLine first with
  | zero => cases h
  | succ rounds ih =>
    rw [loop_succ] at h
    obtain ⟨r, -, h⟩ := Option.bind_eq_some_iff.mp h
    unfold goOn at h
    split at h
    · next hfinish =>
      cases h
      exact afterCommand_over hfinish
    · exact ih h

theorem descend_idle {x : BofShell P V} (h : descend param rounds fin one d = some x) : x.mExecScript_B = false := by
  unfold descend at h
  dsimp only at h
  split at h
  · cases h
    rfl
  · obtain ⟨⟨err, x'⟩, hloop, rfl⟩ := Option.map_eq_some_iff.mp h
    exact loop_idle hloop

theorem loop_script_exec (h : effect param d line = .exec d') :
    loop param (rounds + 1) ⟨false, true, one, some rest, d⟩ line false =
      resumeExec param rounds false one line d' := by
  rw [loop_succ, readInput_script, runCommand_exec h (by simp), resumeExec]
  cases hx : descend param rounds false one d' with
  | none => rfl
  | some x =>
    rw [Option.map_some, Option.bind_some, afterCommand_idle _ _ (descend_idle hx), if_pos rfl]
    rfl

/-- The first round of the interpreter of a script. -/
theorem loop_enter (param : ShellParam P V) (rounds : Nat) (fin one : Bool) (d : ShellData P V) :
    loop param (rounds + 1) ⟨fin, true, one, none, d⟩ [] false =
    match param.openFile d.mScriptPath (tell param (.execute d.mScriptPath) d).outside with
    | .ok content => resume param rounds one content (tell param (.execute d.mScriptPath) d)
    | .error err =>
      some (err, ⟨true, false, one, none, tell param (.cannotOpen err) (tell param (.execute d.mScriptPath) d)⟩) := by
  have hopen : openScript param ⟨fin, true, one, none, d⟩ =
      match param.openFile d.mScriptPath (tell param (.execute d.mScriptPath) d).outside with
      | .ok content => (.noError, ⟨fin, true, one, some content, tell param (.execute d.mScriptPath) d⟩)
      | .error err =>
        (err, ⟨fin, false, one, none, tell param (.cannotOpen err) (tell param (.execute d.mScriptPath) d)⟩) := rfl
  rw [loop_succ, readInput_script, runCommand, if_pos (.inl rfl), Option.bind_some]
  have hafter : afterCommand param ⟨fin, true, one, none, d⟩ [] .noError =
      ((nextLine param ⟨fin, true, one, none, d⟩ []).2.2.mFinish_B, nextLine param ⟨fin, true, one, none, d⟩ []) := rfl
  rw [hafter, nextLine_eq, hopen]
  cases param.openFile d.mScriptPath (tell param (.execute d.mScriptPath) d).outside with
  | error err => rfl
  | ok content =>
    have hgo := goOn_open param rounds fin one content [] (tell param (.execute d.mScriptPath) d)
    rw [nextLine_eq, openScript_open] at hgo
    exact hgo

theorem readInput_idle (cmdLine : Text) (first : Bool) (d : ShellData P V) :
    readInput param ⟨fin, false, one, io, d⟩ cmdLine first =
      ((input param first cmdLine d).1, ⟨fin, false, one, io, (input param first cmdLine d).2⟩) := by
  unfold readInput input
  cases first <;> rfl

theorem loop_command_done {first : Bool}
    (h : effect param (input param first cmdLine d).2 (input param first cmdLine d).1 = .done err d') :
    loop param (rounds + 1) ⟨fin, false, one, none, d⟩ cmdLine first =
      if fin then some (err, ⟨true, false, one, none, d'⟩)
      else loop param rounds ⟨false, false, one, none, d'⟩ (input param first cmdLine d).1 false := by
  obtain ⟨d₀, rfl, hrun⟩ := runCommand_done h
  rw [loop_succ, readInput_idle, hrun, Option.bind_some, afterCommand_idle _ _ rfl, report_eq]
  cases fin <;> rfl

theorem loop_command_quit {first : Bool}
    (h : effect param (input param first cmdLine d).2 (input param first cmdLine d).1 = .quit d') :
    loop param (rounds + 1) ⟨fin, false, one, none, d⟩ cmdLine first =
      some (.noError, ⟨true, false, one, none, d'⟩) := by
  rw [loop_succ, readInput_idle, runCommand_quit h, Option.bind_some, afterCommand_idle _ _ rfl, if_pos rfl]
  rfl

theorem loop_command_exec {first : Bool}
    (h : effect param (input param first cmdLine d).2 (input param first cmdLine d).1 = .exec d') :
    loop param (rounds + 1) ⟨fin, false, one, none, d⟩ cmdLine first =
      resumeExec param rounds fin one (input param first cmdLine d).1 d' := by
  rw [loop_succ, readInput_idle, runCommand_exec h (fun _ => rfl), resumeExec]
  cases hx : descend param rounds fin one d' with
  | none => rfl
  | some x =>
    rw [Option.map_some, Option.bind_some, afterCommand_idle _ _ (descend_idle hx), if_pos rfl]
    rfl

/-! ## What the interpreter returns, the session ends with -/

/-- Going on ends with a result. -/
def NextEnds (param : ShellParam P V) : Next P V → ShellErr × ShellData P V → Prop
  | .stop r, res => r = res
  | .again s, res => Ends param s res

theorem ends_iff {s : Session P V} {res : ShellErr × ShellData P V} :
    Ends param s res ↔ NextEnds param (s.round param) res := by
  constructor
  · rintro ⟨n, hn⟩
    cases n with
    | zero => cases hn
    | succ n =>
      rw [Retry.loop] at hn
      cases hround : s.round param with
      | again s' =>
        rw [hround] at hn
        exact ⟨n, hn⟩
      | stop r =>
        rw [hround] at hn
        exact Option.some.inj hn
  · intro h
    cases hround : s.round param with
    | again s' =>
      rw [hround] at h
      obtain ⟨n, hn⟩ := h
      exact ⟨n + 1, by rw [Retry.loop_again hround, hn]⟩
    | stop r =>
      rw [hround] at h
      exact ⟨1, by rw [Retry.loop_stop hround, show r = res from h]⟩

/-- The interpreter of a script has returned: the script is over, or an error has stopped it. Then the session goes on
with the command line that has executed the script. -/
def Returned (param : ShellParam P V) (next : Next P V) (base : Option Text) (one : Bool) (err : ShellErr)
    (x : BofShell P V) : Prop :=
  (∃ d, x = ⟨true, false, one, none, d⟩ ∧ err = .noError ∧ NextEnds param next (.noError, d)) ∨
    ∃ d, x = ⟨false, false, one, none, d⟩ ∧ (base = none → NextEnds param next (err, d)) ∧
      ∀ cmdLine, base = some cmdLine →
        ∀ res, Ends param (.command false false cmdLine d) res → NextEnds param next res

theorem Returned.again {s : Session P V} {base : Option Text}
    (h : Returned param (s.round param) base one err x) : Returned param (.again s) base one err x := by
  rcases h with ⟨d, hx, herr, hends⟩ | ⟨d, hx, hnone, hsome⟩
  · exact .inl ⟨d, hx, herr, ends_iff.mpr hends⟩
  · refine .inr ⟨d, hx, ?_, ?_⟩
    · intro hbase
      exact ends_iff.mpr (hnone hbase)
    · intro cmdLine hbase res hres
      exact ends_iff.mpr (hsome cmdLine hbase res hres)

def ScriptSound (param : ShellParam P V) (one : Bool) (rounds : Nat) : Prop :=
  ∀ rest d line base err x, loop param rounds ⟨false, true, one, some rest, d⟩ line false = some (err, x) →
    Returned param (Session.round param (.script line rest base d)) base one err x

def CommandSound (param : ShellParam P V) (one : Bool) (rounds : Nat) : Prop :=
  ∀ fin first d cmdLine err x, loop param rounds ⟨fin, false, one, none, d⟩ cmdLine first = some (err, x) →
    ∃ d', x = ⟨true, false, one, none, d'⟩ ∧ (fin = false → err = .noError) ∧
      NextEnds param (Session.round param (.command fin first cmdLine d)) (err, d')

theorem resume_sound (hscript : ScriptSound param one rounds) (base : Option Text)
    (h : resume param rounds one rest d = some (err, x)) :
    Returned param (continueScript param rest base d) base one err x := by
  unfold resume at h
  unfold continueScript
  cases hread : readLine rest with
  | none =>
    rw [hread] at h
    cases h
    exact .inl ⟨d, rfl, rfl, rfl⟩
  | some next =>
    rw [hread] at h
    exact (hscript _ _ _ base _ _ h).again

/-- Behind an `exec`, all is over when the executed script is. -/
theorem resumeExec_sound (hscript : ∀ k < rounds, ScriptSound param one k) (hcommand : CommandSound param one rounds)
    (h : resumeExec param rounds fin one cmdLine d = some (err, x)) :
    ∃ d', x = ⟨true, false, one, none, d'⟩ ∧ err = .noError ∧
      NextEnds param (enter param (some cmdLine)
        (fun d => if fin then .stop (.noError, d) else .again (.command false false cmdLine d)) d) (.noError, d') := by
  unfold resumeExec at h
  obtain ⟨y, hy, h⟩ := Option.bind_eq_some_iff.mp h
  unfold descend at hy
  unfold enter
  dsimp only at hy ⊢
  generalize nameScript param d = d₁ at hy ⊢
  by_cases hname : d₁.mScriptFilename_S = []
  · rw [if_pos hname] at hy ⊢
    cases hy
    cases fin with
    | true =>
      cases h
      exact ⟨d₁, rfl, rfl, rfl⟩
    | false =>
      obtain ⟨d', rfl, herr, hends⟩ := hcommand _ _ _ _ _ _ h
      obtain rfl := herr rfl
      exact ⟨d', rfl, rfl, ends_iff.mpr hends⟩
  · rw [if_neg hname] at hy ⊢
    obtain ⟨⟨err₁, y⟩, hloop, rfl⟩ := Option.map_eq_some_iff.mp hy
    cases rounds with
    | zero => cases hloop
    | succ rounds =>
      rw [loop_enter] at hloop
      unfold openNext
      dsimp only
      rw [show (tell param (.execute d₁.mScriptPath) d₁).mScriptPath = d₁.mScriptPath from rfl]
      cases hfile : param.openFile d₁.mScriptPath (tell param (.execute d₁.mScriptPath) d₁).outside with
      | error err₂ =>
        rw [hfile] at hloop
        cases hloop
        cases h
        exact ⟨_, rfl, rfl, rfl⟩
      | ok content =>
        rw [hfile] at hloop
        rcases resume_sound (hscript rounds (Nat.lt_succ_self _)) (some cmdLine) hloop with
          ⟨d', rfl, -, hends⟩ | ⟨d', rfl, -, hends⟩
        · cases h
          exact ⟨d', rfl, rfl, hends⟩
        · obtain ⟨d'', rfl, herr, hcmd⟩ := hcommand _ _ _ _ _ _ h
          obtain rfl := herr rfl
          exact ⟨d'', rfl, rfl, hends cmdLine rfl _ (ends_iff.mpr hcmd)⟩

theorem scriptSound_succ (hscript : ∀ k ≤ rounds, ScriptSound param one k) (hcommand : CommandSound param one rounds) :
    ScriptSound param one (rounds + 1) := by
  intro rest d line base err x h
  rw [Session.round]
  cases heffect : effect param d line with
  | done err₁ d₁ =>
    rw [loop_script_done heffect] at h
    dsimp only
    split at h
    · next hstop =>
      rw [if_pos hstop]
      cases h
      refine .inr ⟨d₁, rfl, ?_, ?_⟩
      · rintro rfl
        rfl
      · rintro cmdLine rfl res hres
        exact hres
    · next hstop =>
      rw [if_neg hstop]
      exact resume_sound (hscript rounds le_rfl) _ h
  | quit d₁ =>
    rw [loop_script_quit heffect] at h
    exact resume_sound (hscript rounds le_rfl) _ h
  | exec d₁ =>
    rw [loop_script_exec heffect] at h
    obtain ⟨d', rfl, rfl, hends⟩ := resumeExec_sound (fun k hk => hscript k hk.le) hcommand h
    exact .inl ⟨d', rfl, rfl, hends⟩

theorem commandSound_succ (hscript : ∀ k ≤ rounds, ScriptSound param one k) (hcommand : CommandSound param one rounds) :
    CommandSound param one (rounds + 1) := by
  intro fin first d cmdLine err x h
  rw [Session.round]
  dsimp only
  cases heffect : effect param (input param first cmdLine d).2 (input param first cmdLine d).1 with
  | done err₁ d₁ =>
    rw [loop_command_done heffect] at h
    dsimp only
    cases fin with
    | true =>
      cases h
      exact ⟨d₁, rfl, by simp, rfl⟩
    | false =>
      obtain ⟨d', rfl, herr, hends⟩ := hcommand _ _ _ _ _ _ h
      exact ⟨d', rfl, herr, ends_iff.mpr hends⟩
  | quit d₁ =>
    rw [loop_command_quit heffect] at h
    cases h
    exact ⟨d₁, rfl, fun _ => rfl, rfl⟩
  | exec d₁ =>
    rw [loop_command_exec heffect] at h
    obtain ⟨d', rfl, rfl, hends⟩ := resumeExec_sound (fun k hk => hscript k hk.le) hcommand h
    refine ⟨d', rfl, fun _ => rfl, ?_⟩
    cases fin <;> exact hends

/-- What the interpreter returns, the session ends with. -/
theorem sound (param : ShellParam P V) (one : Bool) (rounds : Nat) :
    ScriptSound param one rounds ∧ CommandSound param one rounds := by
  induction rounds using Nat.strong_induction_on with
  | h rounds ih =>
    cases rounds with
    | zero =>
      constructor
      · intro rest d line base err x h
        cases h
      · intro fin first d cmdLine err x h
        cases h
    | succ rounds =>
      have hscript : ∀ k ≤ rounds, ScriptSound param one k := fun k hk => (ih k (Nat.lt_succ_of_le hk)).1
      have hcommand := (ih rounds (Nat.lt_succ_self _)).2
      exact ⟨scriptSound_succ hscript hcommand, commandSound_succ hscript hcommand⟩

/-! ## More rounds do not change what is returned -/

section mono

variable {i j : BofShell P V → Option (ShellErr × BofShell P V)} (hij : ∀ y r, i y = some r → j y = some r)

include hij in
theorem execScriptWith_mono {scriptPath : P} {r : ShellErr × BofShell P V}
    (h : execScriptWith param i x scriptPath = some r) : execScriptWith param j x scriptPath = some r := by
  unfold execScriptWith at h ⊢
  dsimp only at h ⊢
  split at h
  · next hname =>
    rw [if_pos hname]
    exact hij _ _ h
  · next hname =>
    rw [if_neg hname]
    exact h

include hij in
theorem callCommand_mono {callback : Callback V} {r : ShellErr × Text × BofShell P V}
    (h : callCommand param i x callback = some r) : callCommand param j x callback = some r := by
  cases callback with
  | quit => exact h
  | call run => exact h
  | exec =>
    obtain ⟨r', hexec, hr⟩ := Option.map_eq_some_iff.mp h
    exact Option.map_eq_some_iff.mpr ⟨r', execScriptWith_mono hij hexec, hr⟩

include hij in
theorem runCommand_mono {r : ShellErr × BofShell P V} (h : runCommand param i x cmdLine = some r) :
    runCommand param j x cmdLine = some r := by
  unfold runCommand at h ⊢
  split at h
  · next hskip => rwa [if_pos hskip]
  · next hskip =>
    rw [if_neg hskip]
    dsimp only at h ⊢
    cases hcallback : (parser x.data (cStr cmdLine)).2.1 with
    | none =>
      rw [hcallback] at h
      exact h
    | some callback =>
      rw [hcallback] at h
      obtain ⟨r', hcall, hr⟩ := Option.map_eq_some_iff.mp h
      exact Option.map_eq_some_iff.mpr ⟨r', callCommand_mono hij hcall, hr⟩

end mono

theorem loop_mono_succ {first : Bool} {r : ShellErr × BofShell P V} (h : loop param rounds x cmdLine first = some r) :
    loop param (rounds + 1) x cmdLine first = some r := by
  induction rounds generalizing x cmdLine first r with
  | zero => cases h
  | succ rounds ih =>
    rw [loop_succ] at h ⊢
    obtain ⟨r₁, hrun, h⟩ := Option.bind_eq_some_iff.mp h
    refine Option.bind_eq_some_iff.mpr ⟨r₁, runCommand_mono (fun _ _ hy => ih hy) hrun, ?_⟩
    unfold goOn at h ⊢
    split at h
    · next hover => rwa [if_pos hover]
    · next hover =>
      rw [if_neg hover]
      exact ih h

theorem loop_mono {rounds' : Nat} (hle : rounds ≤ rounds') {first : Bool} {r : ShellErr × BofShell P V}
    (h : loop param rounds x cmdLine first = some r) : loop param rounds' x cmdLine first = some r := by
  induction hle with
  | refl => exact h
  | step _ ih => exact loop_mono_succ ih

/-! ## What the session ends with, the interpreter returns -/

/-- Going on ends after some rounds. -/
def NextLoop (param : ShellParam P V) (n : Nat) : Next P V → ShellErr × ShellData P V → Prop
  | .stop r, res => r = res
  | .again s, res => Retry.loop (Session.round param) n s = some res

theorem loop_succ_iff {s : Session P V} {n : Nat} {res : ShellErr × ShellData P V} :
    Retry.loop (Session.round param) (n + 1) s = some res ↔ NextLoop param n (s.round param) res := by
  cases hround : s.round param with
  | again s' => rw [Retry.loop_again hround, NextLoop]
  | stop r => rw [Retry.loop_stop hround, NextLoop, Option.some_inj]

theorem exists_nextLoop {next : Next P V} {res : ShellErr × ShellData P V} (h : NextEnds param next res) :
    ∃ n, NextLoop param n next res := by
  cases next with
  | stop r => exact ⟨0, h⟩
  | again s => exact h

/-- The interpreter of a script returns as the session ends; one that an error stops leaves fewer rounds to it. -/
def ReturnsIn (param : ShellParam P V) (n : Nat) (base : Option Text) (one : Bool) (res : ShellErr × ShellData P V)
    (err : ShellErr) (x : BofShell P V) : Prop :=
  (x = ⟨true, false, one, none, res.2⟩ ∧ err = .noError ∧ res.1 = .noError) ∨
    ∃ d, x = ⟨false, false, one, none, d⟩ ∧ (base = none → res = (err, d)) ∧
      ∀ cmdLine, base = some cmdLine →
        ∃ m < n, Retry.loop (Session.round param) m (.command false false cmdLine d) = some res

def ScriptComplete (param : ShellParam P V) (one : Bool) (n : Nat) : Prop :=
  ∀ rest d line base res, Retry.loop (Session.round param) n (.script line rest base d) = some res →
    ∃ rounds err x, loop param rounds ⟨false, true, one, some rest, d⟩ line false = some (err, x) ∧
      ReturnsIn param n base one res err x

def CommandComplete (param : ShellParam P V) (one : Bool) (n : Nat) : Prop :=
  ∀ fin first d cmdLine res, Retry.loop (Session.round param) n (.command fin first cmdLine d) = some res →
    ∃ rounds, loop param rounds ⟨fin, false, one, none, d⟩ cmdLine first = some (res.1, ⟨true, false, one, none, res.2⟩)

variable {n : Nat} {res : ShellErr × ShellData P V}

theorem ReturnsIn.mono {m : Nat} (hle : m ≤ n) {base : Option Text} (h : ReturnsIn param m base one res err x) :
    ReturnsIn param n base one res err x := by
  rcases h with h | ⟨d, hx, hnone, hsome⟩
  · exact .inl h
  · refine .inr ⟨d, hx, hnone, fun cmdLine hbase => ?_⟩
    obtain ⟨k, hk, hloop⟩ := hsome cmdLine hbase
    exact ⟨k, hk.trans_le hle, hloop⟩

theorem resume_complete (hscript : ScriptComplete param one n) {base : Option Text}
    (h : NextLoop param n (continueScript param rest base d) res) :
    ∃ rounds err x, resume param rounds one rest d = some (err, x) ∧ ReturnsIn param n base one res err x := by
  unfold continueScript at h
  unfold resume
  cases hread : readLine rest with
  | none =>
    rw [hread] at h
    obtain rfl : (.noError, d) = res := h
    exact ⟨0, _, _, rfl, .inl ⟨rfl, rfl, rfl⟩⟩
  | some next =>
    rw [hread] at h
    exact hscript _ _ _ base _ h

theorem resumeExec_complete (fin : Bool) (hscript : ScriptComplete param one n)
    (hcommand : ∀ k ≤ n, CommandComplete param one k)
    (h : NextLoop param n (enter param (some cmdLine)
      (fun d => if fin then .stop (.noError, d) else .again (.command false false cmdLine d)) d) res) :
    ∃ rounds, resumeExec param rounds fin one cmdLine d = some (res.1, ⟨true, false, one, none, res.2⟩) := by
  -- where the session goes on with the command line, the error in the end is none
  have hnoError : ∀ k ≤ n, ∀ d, Retry.loop (Session.round param) k (.command false false cmdLine d) = some res →
      res.1 = .noError ∧
        ∃ rounds, loop param rounds ⟨false, false, one, none, d⟩ cmdLine false =
          some (.noError, ⟨true, false, one, none, res.2⟩) := by
    intro k hk d hloop
    obtain ⟨rounds, hrounds⟩ := hcommand k hk _ _ _ _ _ hloop
    obtain ⟨-, -, herr, -⟩ := (sound param one rounds).2 _ _ _ _ _ _ hrounds
    rw [herr rfl] at hrounds
    exact ⟨herr rfl, rounds, hrounds⟩
  unfold enter at h
  unfold resumeExec descend
  dsimp only at h ⊢
  generalize nameScript param d = d₁ at h ⊢
  by_cases hname : d₁.mScriptFilename_S = []
  · rw [if_pos hname] at h
    simp only [if_pos hname, Option.bind_some]
    cases fin with
    | true =>
      obtain rfl : (.noError, d₁) = res := h
      exact ⟨0, rfl⟩
    | false =>
      obtain ⟨herr, rounds, hrounds⟩ := hnoError n le_rfl d₁ h
      exact ⟨rounds, by rw [herr]; exact hrounds⟩
  · rw [if_neg hname] at h
    simp only [if_neg hname]
    unfold openNext at h
    dsimp only at h
    rw [show (tell param (.execute d₁.mScriptPath) d₁).mScriptPath = d₁.mScriptPath from rfl] at h
    have henter := fun rounds => loop_enter param rounds (param.InputStream.isNone ∨ one) one d₁
    cases hfile : param.openFile d₁.mScriptPath (tell param (.execute d₁.mScriptPath) d₁).outside with
    | error err =>
      rw [hfile] at h
      obtain rfl : (.noError, _) = res := h
      refine ⟨1, ?_⟩
      rw [henter, hfile]
      rfl
    | ok content =>
      rw [hfile] at h
      simp only [hfile] at henter
      obtain ⟨rounds, err, x, hresume, hreturns⟩ := resume_complete hscript h
      rw [← henter] at hresume
      rcases hreturns with ⟨rfl, rfl, herr⟩ | ⟨d', rfl, -, hsome⟩
      · refine ⟨rounds + 1, ?_⟩
        rw [hresume, herr]
        rfl
      · obtain ⟨m, hm, hloop⟩ := hsome cmdLine rfl
        obtain ⟨herr, rounds', hrounds'⟩ := hnoError m hm.le d' hloop
        refine ⟨max (rounds + 1) rounds', ?_⟩
        rw [loop_mono (le_max_left _ _) hresume, herr]
        exact loop_mono (le_max_right _ _) hrounds'

theorem scriptComplete_succ (hscript : ScriptComplete param one n) (hcommand : ∀ k ≤ n, CommandComplete param one k) :
    ScriptComplete param one (n + 1) := by
  intro rest d line base res h
  rw [loop_succ_iff, Session.round] at h
  cases heffect : effect param d line with
  | done err₁ d₁ =>
    rw [heffect] at h
    dsimp only at h
    split at h
    · next hstop =>
      have hloop : loop param 1 ⟨false, true, one, some rest, d⟩ line false =
          some (err₁, ⟨false, false, one, none, d₁⟩) := by
        rw [loop_script_done heffect, if_pos hstop]
      refine ⟨1, _, _, hloop, .inr ⟨d₁, rfl, ?_, ?_⟩⟩
      · rintro rfl
        exact h.symm
      · rintro cmdLine rfl
        exact ⟨n, Nat.lt_succ_self n, h⟩
    · next hstop =>
      obtain ⟨rounds, err, x, hresume, hreturns⟩ := resume_complete hscript h
      refine ⟨rounds + 1, err, x, ?_, hreturns.mono (Nat.le_succ n)⟩
      rw [loop_script_done heffect, if_neg hstop, hresume]
  | quit d₁ =>
    rw [heffect] at h
    obtain ⟨rounds, err, x, hresume, hreturns⟩ := resume_complete hscript h
    exact ⟨rounds + 1, err, x, by rw [loop_script_quit heffect, hresume], hreturns.mono (Nat.le_succ n)⟩
  | exec d₁ =>
    rw [heffect] at h
    obtain ⟨rounds, hresume⟩ := resumeExec_complete false hscript hcommand h
    have hrounds : loop param (rounds + 1) ⟨false, true, one, some rest, d⟩ line false = _ :=
      (loop_script_exec heffect).trans hresume
    rcases (sound param one (rounds + 1)).1 _ _ _ (some []) _ _ hrounds with ⟨d', hx, herr, -⟩ | ⟨d', hx, -⟩
    · exact ⟨rounds + 1, _, _, hrounds, .inl ⟨rfl, herr, herr⟩⟩
    · cases hx

theorem commandComplete_succ (hscript : ScriptComplete param one n)
    (hcommand : ∀ k ≤ n, CommandComplete param one k) : CommandComplete param one (n + 1) := by
  intro fin first d cmdLine res h
  rw [loop_succ_iff, Session.round] at h
  dsimp only at h
  cases heffect : effect param (input param first cmdLine d).2 (input param first cmdLine d).1 with
  | done err₁ d₁ =>
    rw [heffect] at h
    cases fin with
    | true =>
      obtain rfl : (err₁, d₁) = res := h
      exact ⟨1, by rw [loop_command_done heffect, if_pos rfl]⟩
    | false =>
      obtain ⟨rounds, hrounds⟩ := hcommand n le_rfl _ _ _ _ _ h
      exact ⟨rounds + 1, by rw [loop_command_done heffect, if_neg Bool.false_ne_true, hrounds]⟩
  | quit d₁ =>
    rw [heffect] at h
    obtain rfl : (.noError, d₁) = res := h
    exact ⟨1, loop_command_quit heffect⟩
  | exec d₁ =>
    rw [heffect] at h
    have hexec : ∃ rounds, resumeExec param rounds fin one (input param first cmdLine d).1 d₁ =
        some (res.1, ⟨true, false, one, none, res.2⟩) := by
      cases fin <;> exact resumeExec_complete _ hscript hcommand h
    obtain ⟨rounds, hrounds⟩ := hexec
    exact ⟨rounds + 1, by rw [loop_command_exec heffect, hrounds]⟩

/-- What the session ends with, the interpreter returns. -/
theorem complete (param : ShellParam P V) (one : Bool) (n : Nat) :
    ScriptComplete param one n ∧ CommandComplete param one n := by
  induction n using Nat.strong_induction_on with
  | h n ih =>
    cases n with
    | zero =>
      constructor
      · intro rest d line base res h
        cases h
      · intro fin first d cmdLine res h
        cases h
    | succ n =>
      have hscript := (ih n (Nat.lt_succ_self n)).1
      have hcommand : ∀ k ≤ n, CommandComplete param one k := fun k hk => (ih k (Nat.lt_succ_of_le hk)).2
      exact ⟨scriptComplete_succ hscript hcommand, commandComplete_succ hscript hcommand⟩

/-! ## The calls of the user -/

theorem interpreter_eq (param : ShellParam P V) (hx : x.Idle) (rounds : Nat) (cmdLine : Text) :
    ∃ first d, startCommand param (param.InputStream.isNone ∨ x.mExecuteOnlyOneCommand_B) cmdLine x.data =
        .command (param.InputStream.isNone ∨ x.mExecuteOnlyOneCommand_B) first cmdLine d ∧
      interpreter param rounds x cmdLine =
        loop param rounds
          ⟨param.InputStream.isNone ∨ x.mExecuteOnlyOneCommand_B, false, x.mExecuteOnlyOneCommand_B, none, d⟩ cmdLine
            first := by
  obtain ⟨fin, ex, one, io, d⟩ := x
  obtain ⟨rfl, rfl⟩ : ex = false ∧ io = none := ⟨hx.mExecScript_B, hx.mIoScript⟩
  unfold startCommand interpreter
  by_cases hcmd : cmdLine = []
  · subst hcmd
    exact ⟨false, d, rfl, rfl⟩
  · rw [if_neg hcmd, if_neg hcmd]
    exact ⟨true, _, rfl, rfl⟩

theorem interpreter_iff (param : ShellParam P V) (hx : x.Idle) (cmdLine : Text) (res : ShellErr × ShellData P V) :
    Returns (fun rounds => interpreter param rounds x cmdLine) res ↔
      Ends param (startCommand param (param.InputStream.isNone ∨ x.mExecuteOnlyOneCommand_B) cmdLine x.data) res := by
  constructor
  · rintro ⟨rounds, y, hy, hdata, -⟩
    obtain ⟨first, d, hstart, heq⟩ := interpreter_eq param hx rounds cmdLine
    dsimp only at hy
    rw [heq] at hy
    obtain ⟨d', rfl, -, hends⟩ := (sound param _ rounds).2 _ _ _ _ _ _ hy
    obtain rfl : d' = res.2 := hdata
    rw [hstart]
    exact ends_iff.mpr hends
  · intro hends
    obtain ⟨first, d, hstart, -⟩ := interpreter_eq param hx 0 cmdLine
    rw [hstart] at hends
    obtain ⟨n, hn⟩ := hends
    obtain ⟨rounds, hrounds⟩ := (complete param x.mExecuteOnlyOneCommand_B n).2 _ _ _ _ _ hn
    obtain ⟨first', d₁, hstart', heq⟩ := interpreter_eq param hx rounds cmdLine
    obtain ⟨-, rfl, -, rfl⟩ := Session.command.inj (hstart.symm.trans hstart')
    exact ⟨rounds, _, heq.trans hrounds, rfl, rfl, rfl⟩

theorem execute_iff (hx : x.Idle) (cmdLine : Text) (res : ShellErr × ShellData P V) :
    Returns (fun rounds => execute param rounds x cmdLine) res ↔
      Ends param (startCommand param true cmdLine x.data) res := by
  have hone : ({ x with mExecuteOnlyOneCommand_B := true } : BofShell P V).Idle := ⟨hx.mExecScript_B, hx.mIoScript⟩
  have hiff := interpreter_iff param hone cmdLine res
  dsimp only at hiff
  rw [show decide (param.InputStream.isNone ∨ true = true) = true by simp] at hiff
  rw [← hiff]
  constructor
  · rintro ⟨rounds, y, hy, hdata, hidle⟩
    obtain ⟨⟨err, z⟩, hz, heq⟩ := Option.map_eq_some_iff.mp hy
    obtain ⟨rfl, rfl⟩ := Prod.mk.inj heq
    exact ⟨rounds, z, hz, hdata, hidle.mExecScript_B, hidle.mIoScript⟩
  · rintro ⟨rounds, y, hy, hdata, hidle⟩
    refine ⟨rounds, { y with mExecuteOnlyOneCommand_B := false }, ?_, hdata, hidle.mExecScript_B, hidle.mIoScript⟩
    dsimp only at hy ⊢
    rw [execute, hy]
    rfl

theorem openNext_eq (base : Option Text) (d : ShellData P V) :
    openNext param base d =
      match param.openFile d.mScriptPath (tell param (.execute d.mScriptPath) d).outside with
      | .ok content => continueScript param content base (tell param (.execute d.mScriptPath) d)
      | .error err =>
        .stop (if base.isNone then err else .noError,
          tell param (.cannotOpen err) (tell param (.execute d.mScriptPath) d)) := rfl

/-- The interpreter that executes a script of the user. -/
theorem loop_enter_iff (one : Bool) (d : ShellData P V) (res : ShellErr × ShellData P V) :
    Returns (fun rounds => loop param rounds ⟨fin, true, one, none, d⟩ [] false) res ↔
      NextEnds param (openNext param none d) res := by
  rw [openNext_eq]
  have henter := fun rounds => loop_enter param rounds fin one d
  cases hfile : param.openFile d.mScriptPath (tell param (.execute d.mScriptPath) d).outside with
  | error err =>
    simp only [hfile] at henter
    constructor
    · rintro ⟨rounds, y, hy, hdata, -⟩
      cases rounds with
      | zero => cases hy
      | succ rounds =>
        obtain ⟨rfl, rfl⟩ := Prod.mk.inj (Option.some.inj ((henter rounds).symm.trans hy))
        exact Prod.ext rfl hdata
    · rintro rfl
      exact ⟨1, _, henter 0, rfl, rfl, rfl⟩
  | ok content =>
    simp only [hfile] at henter
    constructor
    · rintro ⟨rounds, y, hy, hdata, -⟩
      cases rounds with
      | zero => cases hy
      | succ rounds =>
        obtain ⟨err, d'⟩ := res
        rcases resume_sound (sound param one rounds).1 none ((henter rounds).symm.trans hy) with
          ⟨d₁, rfl, herr, hends⟩ | ⟨d₁, rfl, hends, -⟩
        · obtain rfl : d₁ = d' := hdata
          obtain rfl : err = .noError := herr
          exact hends
        · obtain rfl : d₁ = d' := hdata
          exact hends rfl
    · intro hends
      obtain ⟨n, hn⟩ := exists_nextLoop hends
      obtain ⟨rounds, err, y, hresume, hreturns⟩ := resume_complete (complete param one n).1 hn
      rcases hreturns with ⟨rfl, rfl, herr⟩ | ⟨d', rfl, hnone, -⟩
      · exact ⟨rounds + 1, _, ((henter rounds).trans hresume).trans (by rw [herr]), rfl, rfl, rfl⟩
      · obtain rfl := hnone rfl
        exact ⟨rounds + 1, _, (henter rounds).trans hresume, rfl, rfl, rfl⟩

theorem execScript_iff (hx : x.Idle) (scriptPath : P) (res : ShellErr × ShellData P V) :
    Returns (fun rounds => execScript param rounds x scriptPath) res ↔
      Ends param (.start { x.data with mScriptPath := scriptPath }) res := by
  obtain ⟨fin, ex, one, io, d⟩ := x
  obtain ⟨rfl, rfl⟩ : ex = false ∧ io = none := ⟨hx.mExecScript_B, hx.mIoScript⟩
  rw [ends_iff, Session.round, enter]
  dsimp only
  have hname : nameScript param { d with mScriptPath := scriptPath } =
      { d with mScriptPath := scriptPath, mScriptFilename_S := param.FileNameWithExtension scriptPath } := rfl
  rw [hname]
  unfold execScript execScriptWith
  dsimp only
  by_cases hempty : param.FileNameWithExtension scriptPath = []
  · simp only [hempty, ne_eq, not_true_eq_false, decide_false, Bool.false_eq_true, if_false, if_true]
    constructor
    · rintro ⟨rounds, y, hy, hdata, -⟩
      obtain ⟨herr, rfl⟩ := Prod.mk.inj (Option.some.inj hy)
      exact Prod.ext herr hdata
    · rintro rfl
      exact ⟨0, _, rfl, rfl, rfl, rfl⟩
  · simp only [hempty, ne_eq, not_false_eq_true, decide_true, if_true, if_false]
    exact loop_enter_iff one _ res

/-- The interpreter, which calls itself for each script, does what a loop does in which a script takes the place of the
one that executes it. -/
theorem shell_iff (hx : x.Idle) (res : ShellErr × ShellData P V) :
    (∀ cmdLine, Returns (fun rounds => interpreter param rounds x cmdLine) res ↔
        Ends param (startCommand param (param.InputStream.isNone ∨ x.mExecuteOnlyOneCommand_B) cmdLine x.data) res) ∧
      (∀ cmdLine, Returns (fun rounds => execute param rounds x cmdLine) res ↔
        Ends param (startCommand param true cmdLine x.data) res) ∧
      ∀ scriptPath, Returns (fun rounds => execScript param rounds x scriptPath) res ↔
        Ends param (.start { x.data with mScriptPath := scriptPath }) res :=
  ⟨fun cmdLine => interpreter_iff param hx cmdLine res, fun cmdLine => execute_iff hx cmdLine res,
    fun scriptPath => execScript_iff hx scriptPath res⟩

/-- A script `m` that executes `s`, and a script `s` whose line is no command. -/
def twoScripts : ShellParam Text Unit where
  InputStream := none
  OutputStream := none
  ScriptStopOnError_B := true
  FileNameWithExtension := id
  openFile scriptPath _ :=
    if scriptPath = ['m'.toUInt8] then .ok ("exec(s)".toList.map Char.toUInt8)
    else if scriptPath = ['s'.toUInt8] then .ok ['x'.toUInt8] else .error .dontExist

/-- A shell with `exec` that has not executed anything. -/
def execShell : BofShell Text Unit := ⟨false, false, false, none, execData [] []⟩

/-- `exec(s)` executes the script `s`, which goes on behind the error in its only line. -/
theorem shell_iff_exec :
    Returns
      (fun rounds =>
        execute { twoScripts with ScriptStopOnError_B := false } rounds execShell ("exec(s)".toList.map Char.toUInt8))
      (.noError, execData ['s'.toUInt8] ['s'.toUInt8]) :=
  ((shell_iff ⟨rfl, rfl⟩ (.noError, execData ['s'.toUInt8] ['s'.toUInt8])).2.1 _).mpr ⟨2, rfl⟩

/-! ## One script -/

theorem outcome_left_iff (base : Option Text) (cmdLine : Text) (d : ShellData P V) (res : ShellErr × ShellData P V) :
    (Outcome.left cmdLine d).Ends param base res ↔
      NextEnds param (enter param (some cmdLine) (fun d => .again (.command false false cmdLine d)) d) res := by
  rw [Outcome.Ends]
  cases enter param (some cmdLine) (fun d => .again (.command false false cmdLine d)) d with
  | stop r => exact eq_comm
  | again s => rfl

/-- A script whose lines fit is executed line by line. -/
theorem continueScript_iff {content : Text} (hfits : ∀ line ∈ textLines content, Fits line) (base : Option Text)
    (d : ShellData P V) (res : ShellErr × ShellData P V) :
    NextEnds param (continueScript param content base d) res ↔
      (runScript param (textLines content) d).Ends param base res := by
  generalize hlines : textLines content = lines at hfits ⊢
  induction lines generalizing content d with
  | nil =>
    obtain rfl := textLines_eq_nil hlines
    exact eq_comm
  | cons line lines ih =>
    obtain ⟨rest, hfirst, rfl⟩ := textLines_eq_cons hlines
    rw [continueScript, hfirst.readLine_eq (hfits line List.mem_cons_self), NextEnds, ends_iff, Session.round,
      runScript]
    have hbehind : ∀ d, NextEnds param (continueScript param rest base d) res ↔
        (runScript param (textLines rest) d).Ends param base res :=
      fun d => ih d rfl fun l hl => hfits l (List.mem_cons_of_mem line hl)
    cases effect param (tell param (.line d.mScriptFilename_S (stringTrim line)) d) (stringTrim line) with
    | done err d₁ =>
      dsimp only
      split
      · cases base with
        | none => exact eq_comm
        | some cmdLine => rfl
      · exact hbehind d₁
    | quit d₁ => exact hbehind d₁
    | exec d₁ => exact (outcome_left_iff base _ d₁ res).symm

theorem IsScript.enter_eq {lines : List Text} (h : IsScript param d lines) (base : Option Text)
    (lost : ShellData P V → Next P V) :
    ∃ content, textLines content = lines ∧
      enter param base lost d = continueScript param content base (scriptData param d) := by
  obtain ⟨content, hfile, hlines⟩ := h.content
  have hname : (nameScript param d).mScriptFilename_S ≠ [] := h.name
  refine ⟨content, hlines, ?_⟩
  rw [enter, if_neg hname, openNext_eq, show (nameScript param d).mScriptPath = d.mScriptPath from rfl,
    show tell param (.execute d.mScriptPath) (nameScript param d) = scriptData param d from rfl, hfile]

/-- The script that is executed, by the user or by another one. -/
theorem enter_iff {lines : List Text} (h : IsScript param d lines) (base : Option Text)
    (lost : ShellData P V → Next P V) (res : ShellErr × ShellData P V) :
    NextEnds param (enter param base lost d) res ↔
      (runScript param lines (scriptData param d)).Ends param base res := by
  obtain ⟨content, rfl, henter⟩ := h.enter_eq base lost
  rw [henter]
  exact continueScript_iff h.fits base _ res

/-- A script that the user executes is left at its end, at an error, or by a command that executes another one. -/
theorem execScript_lines (hx : x.Idle) {scriptPath : P} {lines : List Text}
    (h : IsScript param { x.data with mScriptPath := scriptPath } lines) (res : ShellErr × ShellData P V) :
    Returns (fun rounds => execScript param rounds x scriptPath) res ↔
      (runScript param lines (scriptData param { x.data with mScriptPath := scriptPath })).Ends param none res := by
  rw [execScript_iff hx, ends_iff, Session.round]
  exact enter_iff h none _ res

theorem isScript_s (scriptFilename : Text) :
    IsScript twoScripts (execData ['s'.toUInt8] scriptFilename) [['x'.toUInt8]] where
  name := List.cons_ne_nil _ _
  content := ⟨['x'.toUInt8], rfl, rfl⟩
  fits := by
    intro line hline
    obtain rfl := List.mem_singleton.mp hline
    exact ⟨by simp, by decide⟩

theorem execScript_lines_s :
    Returns (fun rounds => execScript twoScripts rounds execShell ['s'.toUInt8])
      (.notFound, execData ['s'.toUInt8] ['s'.toUInt8]) :=
  have hidle : execShell.Idle := ⟨rfl, rfl⟩
  (execScript_lines hidle (isScript_s []) (.notFound, execData ['s'.toUInt8] ['s'.toUInt8])).mpr rfl

/-! ## Errors that stop a script below another one -/

/-- Behind a script that an error stops, the session goes on with the command line that has executed it. -/
theorem stopped_loop {content : Text} (hfits : ∀ line ∈ textLines content, Fits line) {err : ShellErr}
    (hstopped : runScript param (textLines content) d = .stopped err d')
    (hloop : NextLoop param n (continueScript param content (some cmdLine) d) res) :
    ∃ m ≤ n, Retry.loop (Session.round param) m (.command false false cmdLine d') = some res := by
  generalize hlines : textLines content = lines at hfits hstopped
  induction lines generalizing content d n with
  | nil => cases hstopped
  | cons line lines ih =>
    obtain ⟨rest, hfirst, rfl⟩ := textLines_eq_cons hlines
    rw [continueScript, hfirst.readLine_eq (hfits line List.mem_cons_self), NextLoop] at hloop
    rw [runScript] at hstopped
    cases n with
    | zero => cases hloop
    | succ n =>
      rw [loop_succ_iff, Session.round] at hloop
      have hbehind : ∀ d, runScript param (textLines rest) d = .stopped err d' →
          NextLoop param n (continueScript param rest (some cmdLine) d) res →
            ∃ m ≤ n + 1, Retry.loop (Session.round param) m (.command false false cmdLine d') = some res := by
        intro d hrun hnext
        obtain ⟨m, hm, hmloop⟩ := ih hnext rfl (fun l hl => hfits l (List.mem_cons_of_mem line hl)) hrun
        exact ⟨m, hm.trans (Nat.le_succ n), hmloop⟩
      cases heffect : effect param (tell param (.line d.mScriptFilename_S (stringTrim line)) d) (stringTrim line) with
      | done err₁ d₁ =>
        rw [heffect] at hloop hstopped
        dsimp only at hloop hstopped
        split at hstopped
        · next hstop =>
          rw [if_pos hstop] at hloop
          cases hstopped
          exact ⟨n, Nat.le_succ n, hloop⟩
        · next hstop =>
          rw [if_neg hstop] at hloop
          exact hbehind d₁ hstopped hloop
      | quit d₁ =>
        rw [heffect] at hloop hstopped
        exact hbehind d₁ hstopped hloop
      | exec d₁ =>
        rw [heffect] at hstopped
        cases hstopped

theorem round_command_exec (hinput : param.InputStream = none) (h : effect param d cmdLine = .exec d') :
    Session.round param (.command false false cmdLine d) =
      enter param (some cmdLine) (fun d => .again (.command false false cmdLine d)) d' := by
  have hstay : input param false cmdLine d = (cmdLine, d) := by
    unfold input
    rw [hinput]
    rfl
  rw [Session.round, hstay]
  dsimp only
  rw [h]
  rfl

theorem command_never (hinput : param.InputStream = none) {Bad : ShellData P V → Prop}
    (hfails : FailsBelow param cmdLine Bad) (hd : Bad d) : ¬ Ends param (.command false false cmdLine d) res := by
  rintro ⟨n, hn⟩
  induction n using Nat.strong_induction_on generalizing d with
  | h n ih =>
    cases n with
    | zero => cases hn
    | succ n =>
      obtain ⟨d₁, lines, err, d₂, heffect, hscript, hstopped, hd₂⟩ := hfails d hd
      obtain ⟨content, rfl, henter⟩ := hscript.enter_eq (some cmdLine) fun d => .again (.command false false cmdLine d)
      rw [loop_succ_iff, round_command_exec hinput heffect, henter] at hn
      obtain ⟨m, hm, hloop⟩ := stopped_loop hscript.fits hstopped hn
      exact ih m (Nat.lt_succ_of_le hm) hd₂ hloop

theorem loop_enter_idle {one : Bool} {y : BofShell P V}
    (h : loop param rounds ⟨fin, true, one, none, d⟩ [] false = some (err, y)) : y.Idle := by
  cases rounds with
  | zero => cases h
  | succ rounds =>
    rw [loop_enter] at h
    cases hfile : param.openFile d.mScriptPath (tell param (.execute d.mScriptPath) d).outside with
    | error err' =>
      rw [hfile] at h
      cases h
      exact ⟨rfl, rfl⟩
    | ok content =>
      rw [hfile] at h
      rcases resume_sound (sound param one rounds).1 none h with ⟨d', rfl, -⟩ | ⟨d', rfl, -⟩
      · exact ⟨rfl, rfl⟩
      · exact ⟨rfl, rfl⟩

theorem execScript_idle (hx : x.Idle) {scriptPath : P} {y : BofShell P V}
    (h : execScript param rounds x scriptPath = some (err, y)) : y.Idle := by
  obtain ⟨fin, ex, one, io, d⟩ := x
  obtain ⟨rfl, rfl⟩ : ex = false ∧ io = none := ⟨hx.mExecScript_B, hx.mIoScript⟩
  unfold execScript execScriptWith at h
  dsimp only at h
  by_cases hempty : param.FileNameWithExtension scriptPath = []
  · simp only [hempty, ne_eq, not_true_eq_false, decide_false, Bool.false_eq_true, if_false] at h
    cases h
    exact ⟨rfl, rfl⟩
  · simp only [hempty, ne_eq, not_false_eq_true, decide_true, if_true] at h
    exact loop_enter_idle h

/-- Without an input, `ExecScript` does not return when an error always stops the script that its script executes: the
command line that has executed it is executed again, and again. -/
theorem execScript_never (hx : x.Idle) (hinput : param.InputStream = none) {scriptPath : P} {lines : List Text}
    (hscript : IsScript param { x.data with mScriptPath := scriptPath } lines) {Bad : ShellData P V → Prop}
    (hfails : FailsBelow param cmdLine Bad) (hd : Bad d) (heffect : effect param d cmdLine = .exec d')
    (hleft : runScript param lines (scriptData param { x.data with mScriptPath := scriptPath }) = .left cmdLine d') :
    ∀ rounds, execScript param rounds x scriptPath = none := by
  intro rounds
  cases hexec : execScript param rounds x scriptPath with
  | none => rfl
  | some r =>
    have hends := (execScript_iff hx scriptPath (r.1, r.2.data)).mp
      ⟨rounds, r.2, hexec, rfl, execScript_idle hx hexec⟩
    rw [ends_iff, Session.round, enter_iff hscript, hleft, outcome_left_iff, ← round_command_exec hinput heffect,
      ← ends_iff] at hends
    exact absurd hends (command_never hinput hfails hd)

/-- The script `m` is executed for ever. -/
theorem execScript_never_m : (fun rounds => execScript twoScripts rounds execShell ['m'.toUInt8]) = fun _ => none := by
  have hexec : ∀ scriptPath scriptFilename,
      effect twoScripts (execData scriptPath scriptFilename) ("exec(s)".toList.map Char.toUInt8) =
        .exec (execData ['s'.toUInt8] scriptFilename) := fun _ _ => rfl
  have hfails : FailsBelow twoScripts ("exec(s)".toList.map Char.toUInt8)
      fun d => ∃ scriptPath scriptFilename, d = execData scriptPath scriptFilename := by
    rintro d ⟨scriptPath, scriptFilename, rfl⟩
    exact ⟨_, _, .notFound, execData ['s'.toUInt8] ['s'.toUInt8], hexec _ _, isScript_s _, rfl, _, _, rfl⟩
  have hscript : IsScript twoScripts (execData ['m'.toUInt8] []) ["exec(s)".toList.map Char.toUInt8] := by
    refine ⟨List.cons_ne_nil _ _, ⟨"exec(s)".toList.map Char.toUInt8, rfl, rfl⟩, ?_⟩
    intro line hline
    obtain rfl := List.mem_singleton.mp hline
    exact ⟨by simp, by decide⟩
  have hidle : execShell.Idle := ⟨rfl, rfl⟩
  exact funext (execScript_never hidle rfl hscript hfails ⟨_, _, rfl⟩ (hexec ['m'.toUInt8] ['m'.toUInt8]) rfl)

/-! ## The commands stay registered -/

theorem keepsCommands_refl (d : ShellData P V) : KeepsCommands d d := fun _ _ _ h => h

theorem KeepsCommands.trans {d₁ d₂ d₃ : ShellData P V} (h : KeepsCommands d₁ d₂) (h' : KeepsCommands d₂ d₃) :
    KeepsCommands d₁ d₃ := fun name callback args hreg => h' name callback args (h name callback args hreg)

theorem keepsCommands_of_same (hcmd : d'.mShellCmdCollection = d.mShellCmdCollection)
    (harg : d'.mShellArgCollection = d.mShellArgCollection) : KeepsCommands d d' := by
  intro name callback args h
  unfold Registered at h ⊢
  rwa [hcmd, harg]

theorem keepsCommands_tell (param : ShellParam P V) (message : ShellMessage P) (d : ShellData P V) :
    KeepsCommands d (tell param message d) := keepsCommands_of_same rfl rfl

theorem keepsCommands_report (err : ShellErr) (d : ShellData P V) : KeepsCommands d (report param err d) := by
  unfold report
  split
  · exact keepsCommands_refl d
  · exact keepsCommands_tell param _ d

/-- The data behind a command line. -/
def Effect.data : Effect P V → ShellData P V
  | .done _ d => d
  | .quit d => d
  | .exec d => d

theorem effect_keepsCommands (param : ShellParam P V) (d : ShellData P V) (cmdLine : Text) :
    KeepsCommands d (effect param d cmdLine).data := by
  unfold effect
  split
  · exact keepsCommands_refl d
  · have hkeeps := parser_keepsCommands d (cStr cmdLine)
    generalize parser d (cStr cmdLine) = r at hkeeps ⊢
    obtain ⟨e, callback, d₁⟩ := r
    rcases callback with _ | (_ | _ | run)
    · exact hkeeps.trans (keepsCommands_report e d₁)
    · exact hkeeps
    · exact hkeeps
    · refine hkeeps.trans (KeepsCommands.trans ?_ (keepsCommands_report _ _))
      split
      · exact keepsCommands_of_same rfl rfl
      · exact keepsCommands_of_same rfl rfl

/-- The data of a session. -/
def Session.data : Session P V → ShellData P V
  | start d => d
  | script _ _ _ d => d
  | command _ _ _ d => d

/-- The data when the shell goes on. -/
def nextData : Next P V → ShellData P V
  | .stop r => r.2
  | .again s => s.data

theorem continueScript_keepsCommands (rest : Text) (base : Option Text) (d : ShellData P V) :
    KeepsCommands d (nextData (continueScript param rest base d)) := by
  unfold continueScript
  cases readLine rest with
  | none => exact keepsCommands_refl d
  | some next => exact keepsCommands_tell param _ d

theorem enter_keepsCommands (base : Option Text) {lost : ShellData P V → Next P V}
    (hlost : ∀ d, nextData (lost d) = d) (d : ShellData P V) :
    KeepsCommands d (nextData (enter param base lost d)) := by
  have hname : KeepsCommands d (nameScript param d) := keepsCommands_of_same rfl rfl
  unfold enter
  dsimp only
  split
  · rw [hlost]
    exact hname
  · rw [openNext_eq]
    refine hname.trans ((keepsCommands_tell param (.execute (nameScript param d).mScriptPath) _).trans ?_)
    cases param.openFile (nameScript param d).mScriptPath
        (tell param (.execute (nameScript param d).mScriptPath) (nameScript param d)).outside with
    | ok content => exact continueScript_keepsCommands content base _
    | error err => exact keepsCommands_tell param _ _

theorem round_keepsCommands (param : ShellParam P V) (s : Session P V) :
    KeepsCommands s.data (nextData (s.round param)) := by
  cases s with
  | start d =>
    rw [Session.round]
    refine enter_keepsCommands none ?_ d
    intro d
    rfl
  | script line rest base d =>
    have heffect := effect_keepsCommands param d line
    rw [Session.round]
    cases hline : effect param d line with
    | done err d₁ =>
      rw [hline] at heffect
      dsimp only
      split
      · cases base <;> exact heffect
      · exact heffect.trans (continueScript_keepsCommands rest base d₁)
    | quit d₁ =>
      rw [hline] at heffect
      exact heffect.trans (continueScript_keepsCommands rest base d₁)
    | exec d₁ =>
      rw [hline] at heffect
      refine heffect.trans (enter_keepsCommands _ ?_ d₁)
      intro d
      rfl
  | command once first cmdLine d =>
    have hinput : KeepsCommands d (input param first cmdLine d).2 := by
      unfold input
      split <;> exact keepsCommands_of_same rfl rfl
    have heffect := effect_keepsCommands param (input param first cmdLine d).2 (input param first cmdLine d).1
    rw [Session.round]
    dsimp only
    cases hline : effect param (input param first cmdLine d).2 (input param first cmdLine d).1 with
    | done err d₁ =>
      rw [hline] at heffect
      dsimp only
      split <;> exact hinput.trans heffect
    | quit d₁ =>
      rw [hline] at heffect
      exact hinput.trans heffect
    | exec d₁ =>
      rw [hline] at heffect
      refine (hinput.trans heffect).trans (enter_keepsCommands _ ?_ d₁)
      intro d
      split <;> rfl

theorem ends_keepsCommands {s : Session P V} (h : Ends param s res) : KeepsCommands s.data res.2 := by
  obtain ⟨n, hn⟩ := h
  induction n generalizing s with
  | zero => cases hn
  | succ n ih =>
    rw [loop_succ_iff] at hn
    have hround := round_keepsCommands param s
    cases hnext : s.round param with
    | stop r =>
      rw [hnext] at hn hround
      obtain rfl : r = res := hn
      exact hround
    | again s' =>
      rw [hnext] at hn hround
      exact hround.trans (ih hn)

/-- Whatever is executed, all commands are still registered when a call returns. -/
theorem shell_keepsCommands (hx : x.Idle) {call : Nat → Option (ShellErr × BofShell P V)}
    (hcall : (∃ cmdLine, call = fun rounds => interpreter param rounds x cmdLine) ∨
      (∃ cmdLine, call = fun rounds => execute param rounds x cmdLine) ∨
      ∃ scriptPath, call = fun rounds => execScript param rounds x scriptPath)
    (h : Returns call res) : KeepsCommands x.data res.2 := by
  have hstart : ∀ once cmdLine, KeepsCommands x.data (startCommand param once cmdLine x.data).data := by
    intro once cmdLine
    unfold startCommand
    split
    · exact keepsCommands_refl _
    · exact keepsCommands_tell param _ _
  rcases hcall with ⟨cmdLine, rfl⟩ | ⟨cmdLine, rfl⟩ | ⟨scriptPath, rfl⟩
  · exact (hstart _ cmdLine).trans (ends_keepsCommands ((interpreter_iff param hx cmdLine res).mp h))
  · exact (hstart _ cmdLine).trans (ends_keepsCommands ((execute_iff hx cmdLine res).mp h))
  · refine KeepsCommands.trans ?_ (ends_keepsCommands ((execScript_iff hx scriptPath res).mp h))
    exact keepsCommands_of_same rfl rfl

theorem shell_keepsCommands_s : KeepsCommands (execData [] []) (execData ['s'.toUInt8] ['s'.toUInt8]) :=
  have hidle : execShell.Idle := ⟨rfl, rfl⟩
  have hreturns : Returns (fun rounds => execScript twoScripts rounds execShell ['s'.toUInt8])
      (.notFound, execData ['s'.toUInt8] ['s'.toUInt8]) := ⟨2, _, rfl, rfl, rfl, rfl⟩
  shell_keepsCommands hidle (.inr (.inr ⟨_, rfl⟩)) hreturns

end BofStd.BofShell
