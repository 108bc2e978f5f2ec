import BofStd.BofShell
import BofStd.Lib.Retry

/-!
# What a shell does

One loop without calls of itself. A script that is executed takes the place of the one that executes it, and the shell
keeps no more than the command line that did so (`Session.round`). When the script is over, everything is over.
-/

namespace BofStd

open ReadLine Retry StdString

namespace ReadLine

/-- The lines of a file, each with its newline. -/
def textLines : Text → List Text
  | [] => []
  | c :: s =>
    if c = 10 then [c] :: textLines s
    else
      match textLines s with
      | [] => [[c]]
      | line :: rest => (c :: line) :: rest

/-- What `Bof_ReadLine` returns until there is no more. -/
def readLines : Nat → Text → List Text
  | 0, _ => []
  | rounds + 1, s =>
    match readLine s with
    | none => []
    | some (line, rest) => line :: readLines rounds rest

/-- The line fits into the buffer, and it has no null byte. -/
def Fits (line : Text) : Prop := line.length < 0x10000 ∧ 0 ∉ line

end ReadLine

namespace BofShell

variable {P V : Type}

/-- What a command line comes to. -/
inductive Effect (P V : Type) where
  | done (err : ShellErr) (d : ShellData P V)
  | quit (d : ShellData P V)
  | exec (d : ShellData P V)

variable (param : ShellParam P V)

/-- Send a message. -/
def tell (message : ShellMessage P) (d : ShellData P V) : ShellData P V :=
  { d with outside := param.OutputStream.elim d.outside fun outputStream => outputStream message d.outside }

/-- Report an error. -/
def report (err : ShellErr) (d : ShellData P V) : ShellData P V :=
  if err = .noError then d else tell param (.error err) d

/-- The effect of a command line. -/
def effect (d : ShellData P V) (cmdLine : Text) : Effect P V :=
  if cmdLine = [] ∨ cmdLine.head? = some '#'.toUInt8 then .done .noError d
  else
    let r := parser d (cStr cmdLine)
    match r.2.1 with
    | none => .done r.1 (report param r.1 r.2.2)
    | some .quit => .quit r.2.2
    | some .exec => .exec r.2.2
    | some (.call run) =>
      let result := run r.2.2.outside
      let d := { r.2.2 with outside := result.2.2 }
      .done result.1 (report param result.1 (if result.2.1 = [] then d else tell param (.result result.2.1) d))

/-- Where a shell is. -/
inductive Session (P V : Type) where
  /-- A script is about to be executed by the user. -/
  | start (d : ShellData P V)
  /-- A line of a script, what is behind it, and the command line that has executed the script. -/
  | script (line rest : Text) (base : Option Text) (d : ShellData P V)
  /-- A command line that no script has; the flags say whether it is the only one, and whether it is there already. -/
  | command (once first : Bool) (cmdLine : Text) (d : ShellData P V)

namespace Session

variable {param}

/-- The shell goes on, or returns an error. -/
abbrev Next (P V : Type) : Type := Round (Session P V) (ShellErr × ShellData P V)

variable (param)

/-- The next line of a script. -/
def continueScript (rest : Text) (base : Option Text) (d : ShellData P V) : Next P V :=
  match readLine rest with
  | none => .stop (.noError, d)
  | some (line, rest) =>
    .again (.script (stringTrim line) rest base (tell param (.line d.mScriptFilename_S (stringTrim line)) d))

/-- The script of `mScriptPath` is named. -/
def nameScript (d : ShellData P V) : ShellData P V :=
  { d with mScriptFilename_S := param.FileNameWithExtension d.mScriptPath }

/-- The first line of the script of `mScriptPath`. -/
def openNext (base : Option Text) (d : ShellData P V) : Next P V :=
  let d := tell param (.execute d.mScriptPath) d
  match param.openFile d.mScriptPath d.outside with
  | .ok content => continueScript param content base d
  | .error err => .stop (if base.isNone then err else .noError, tell param (.cannotOpen err) d)

/-- Execute the script of `mScriptPath`. Where the path has no file name, nothing is executed. -/
def enter (base : Option Text) (lost : ShellData P V → Next P V) (d : ShellData P V) : Next P V :=
  let d := nameScript param d
  if d.mScriptFilename_S = [] then lost d else openNext param base d

/-- The command line that is waited for. -/
def input (first : Bool) (cmdLine : Text) (d : ShellData P V) : Text × ShellData P V :=
  if first then (cmdLine, d)
  else
    let r := param.InputStream.elim (cmdLine, d.outside) fun inputStream => inputStream cmdLine d.outside
    (r.1, { d with outside := r.2 })

/-- One command line. -/
def round : Session P V → Next P V
  | start d => enter param none (fun d => .stop (.noError, d)) d
  | script line rest base d =>
    match effect param d line with
    | .done err d =>
      if err ≠ .noError ∧ param.ScriptStopOnError_B then
        base.elim (.stop (err, d)) fun cmdLine => .again (command false false cmdLine d)
      else continueScript param rest base d
    | .quit d => continueScript param rest base d
    | .exec d => enter param (some line) (fun d => .again (command false false line d)) d
  | command once first cmdLine d =>
    let (cmdLine, d) := input param first cmdLine d
    match effect param d cmdLine with
    | .done err d => if once then .stop (err, d) else .again (command once false cmdLine d)
    | .quit d => .stop (.noError, d)
    | .exec d =>
      enter param (some cmdLine)
        (fun d => if once then .stop (.noError, d) else .again (command once false cmdLine d)) d

/-- The shell comes to an end with an error and these data. -/
def Ends (s : Session P V) (res : ShellErr × ShellData P V) : Prop := ∃ n, Retry.loop (round param) n s = some res

end Session

/-! ## One script -/

/-- How a script is left: at its end, at an error, or by a command line that executes another one. -/
inductive Outcome (P V : Type) where
  | finished (d : ShellData P V)
  | stopped (err : ShellErr) (d : ShellData P V)
  | left (cmdLine : Text) (d : ShellData P V)

/-- The lines of a script, one after the other. -/
def runScript : List Text → ShellData P V → Outcome P V
  | [], d => .finished d
  | line :: lines, d =>
    let cmdLine := stringTrim line
    match effect param (tell param (.line d.mScriptFilename_S cmdLine) d) cmdLine with
    | .done err d => if err ≠ .noError ∧ param.ScriptStopOnError_B then .stopped err d else runScript lines d
    | .quit d => runScript lines d
    | .exec d => .left cmdLine d

/-- The data when the first line of the script of `mScriptPath` is read. -/
def scriptData (d : ShellData P V) : ShellData P V := tell param (.execute d.mScriptPath) (Session.nameScript param d)

/-- The script of `mScriptPath` can be executed, and it has these lines. -/
structure IsScript (d : ShellData P V) (lines : List Text) : Prop where
  name : param.FileNameWithExtension d.mScriptPath ≠ []
  content : ∃ content, param.openFile d.mScriptPath (scriptData param d).outside = .ok content ∧
    textLines content = lines
  fits : ∀ line ∈ lines, Fits line

/-- What the session ends with behind a script. -/
def Outcome.Ends (base : Option Text) (res : ShellErr × ShellData P V) : Outcome P V → Prop
  | .finished d => res = (.noError, d)
  | .stopped err d =>
    match base with
    | none => res = (err, d)
    | some cmdLine => Session.Ends param (.command false false cmdLine d) res
  | .left cmdLine d =>
    match Session.enter param (some cmdLine) (fun d => .again (.command false false cmdLine d)) d with
    | .stop r => res = r
    | .again s => Session.Ends param s res

/-- In such a state the command line always executes a script that an error stops, and the state is such a one again. -/
def FailsBelow (cmdLine : Text) (Bad : ShellData P V → Prop) : Prop :=
  ∀ d, Bad d → ∃ d₁ lines err d₂, effect param d cmdLine = .exec d₁ ∧ IsScript param d₁ lines ∧
    runScript param lines (scriptData param d₁) = .stopped err d₂ ∧ Bad d₂

/-! ## Command lines -/

/-- The command line with a name and the texts of the arguments. -/
def printCmd (name : Text) (texts : List Text) : Text :=
  name ++ '('.toUInt8 :: ([','.toUInt8].intercalate texts ++ [')'.toUInt8])

/-- A name and texts that stay as they are: nothing is trimmed off, and there are no delimiters within. -/
structure Printable (name : Text) (texts : List Text) : Prop where
  name_trim : stringTrim name = name
  name_any : ∀ c ∈ name, isAny c = true
  texts_any : ∀ text ∈ texts, ∀ c ∈ text, isAny c = true ∧ c ≠ '('.toUInt8 ∧ c ≠ ','.toUInt8 ∧ c ≠ 0
  texts_trim : ∀ text ∈ texts, trimQuotes text = text
  args_trim : stringTrim ([','.toUInt8].intercalate texts) = [','.toUInt8].intercalate texts
  ne : texts ≠ [[]]

/-- `S_Parse` of each argument with its text, up to the first error. -/
def callArgs : List (ShellArg P V × Text) → P × V → ShellErr × P × V
  | [], x => (.noError, x)
  | (arg, text) :: rest, x => if (arg text x).1 = .noError then callArgs rest (arg text x).2 else arg text x

/-- There is a command with this name, and all of its arguments. -/
def Registered (d : ShellData P V) (name : Text) (callback : Callback V) (args : List (ShellArg P V)) : Prop :=
  ∃ names, find d.mShellCmdCollection name = some ⟨names, callback⟩ ∧
    (names.map (withPrefix name)).map (find d.mShellArgCollection) = args.map some

/-- All commands stay registered. -/
def KeepsCommands (d d' : ShellData P V) : Prop :=
  ∀ name callback args, Registered d name callback args → Registered d' name callback args

/-- `AddCommandArgument` for each argument of a command, unless one of the calls fails. -/
def addArguments (name : Text) : List (Text × ShellArg P V) → ShellData P V → Option (ShellData P V)
  | [], d => some d
  | (argName, arg) :: rest, d =>
    match addCommandArgument d name argName arg with
    | (.noError, d) => addArguments name rest d
    | _ => none

/-! ## Calls -/

/-- No script is open. -/
structure Idle (x : BofShell P V) : Prop where
  mExecScript_B : x.mExecScript_B = false
  mIoScript : x.mIoScript = none

/-- With enough rounds, a call returns this error and leaves the shell with these data and no open script. -/
def Returns (call : Nat → Option (ShellErr × BofShell P V)) (res : ShellErr × ShellData P V) : Prop :=
  ∃ rounds x, call rounds = some (res.1, x) ∧ x.data = res.2 ∧ x.Idle

/-- The session that `Interpreter` starts. -/
def startCommand (once : Bool) (cmdLine : Text) (d : ShellData P V) : Session P V :=
  if cmdLine = [] then .command once false [] d else .command once true cmdLine (tell param (.command cmdLine) d)

end BofShell

end BofStd
