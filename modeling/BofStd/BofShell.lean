import BofStd.IpAddress
import BofStd.Lib.Regex

/-!
# The shell

`bofshell.cpp`, and the line reader of `boffs.cpp` that a script is read with. The objects that the arguments and the
commands of a user reach are a value of type `V`, and a path is a value of type `P`. An argument is what `S_Parse` does
with its text, and a command is `quit`, `exec` or a function on `V`. So the other commands of the shell itself are not
here: `echo`, `sleep` and the like only make texts and wait, and `?` and `arg` read the tables of commands, which a
function on `V` cannot do. A script file is its bytes, and `read` returns as many as there are. The messages are left
without their texts, `EXEC: ` and `FIRST: ` in front of a first command among them.
-/

namespace BofStd

/-! ## `Bof_ReadLine` -/

namespace ReadLine

open StdString

/-- Where the loop over a block ends a line. -/
def isEnd (c : UInt8) : Bool := c = 0 ∨ c = 10

/-- The bytes of a block up to the first end of a line, and whether there is one. -/
def scanBlock : Text → Text × Bool
  | [] => ([], false)
  | c :: s => if isEnd c then ([c], true) else (c :: (scanBlock s).1, (scanBlock s).2)

/-- The rounds of `Bof_ReadLine` with a buffer, which read blocks of 512 bytes: what is in the buffer, and
`Remain_U32`. -/
def readBlocks : Nat → Text → Text → Nat → Text × Nat
  | 0, _, buffer, remain => (buffer, remain)
  | rounds + 1, s, buffer, remain =>
    let block := s.take 512
    if block = [] then (buffer, remain)
    else
      let (data, found) := scanBlock block
      let remain := u32Sub remain data.length
      if found ∨ remain = 0 then (buffer ++ data, remain)
      else readBlocks rounds (s.drop data.length) (buffer ++ data) remain

/-- `Bof_ReadLine` of a file with these bytes behind its position: the line, and what is behind it. -/
def readLine (s : Text) : Option (Text × Text) :=
  let (buffer, remain) := readBlocks (s.length + 1) s [] 0x10000
  if buffer = [] then none
  else
    let line := if buffer.getLast? = some 0 ∨ remain ≠ 0 then buffer else buffer.take 0xFFFF
    some (cStr line, s.drop buffer.length)

end ReadLine

open ReadLine StdString

/-! ## Commands -/

/-- The values of `BOFERR` that the shell itself returns, and the others. -/
inductive ShellErr where
  | noError
  | notFound
  | tooManyRefs
  | dontExist
  | exist
  | other (code : Nat)
  deriving DecidableEq

/-- What is called for a command. -/
inductive Callback (V : Type) where
  | quit
  | exec
  | call (run : V → ShellErr × Text × V)

/-- `BOF_SHELL_CMD`. -/
structure ShellCmd (V : Type) where
  ArgNameCollection : List Text
  CmdCallback : Callback V

/-- What `S_Parse` does with an argument; `mScriptPath` may be its variable. -/
abbrev ShellArg (P V : Type) : Type := Text → P × V → ShellErr × P × V

/-- The members of `BofShell` that commands work on, and the objects outside. -/
structure ShellData (P V : Type) where
  mShellCmdCollection : List (Text × ShellCmd V)
  mShellArgCollection : List (Text × ShellArg P V)
  mScriptPath : P
  mScriptFilename_S : Text
  outside : V

namespace BofShell

variable {P V : Type}

/-- `find` of a map. -/
def find {α : Type} (m : List (Text × α)) (key : Text) : Option α := (m.find? fun e => e.1 = key).map Prod.snd

/-- An assignment to `operator[]` of a map. -/
def assign {α : Type} (m : List (Text × α)) (key : Text) (x : α) : List (Text × α) :=
  if (find m key).isSome then m.map fun e => if e.1 = key then (key, x) else e else m ++ [(key, x)]

/-- What stands in front of the names of the arguments of a command. -/
def argPrefix (cmd : Text) : Text := cmd ++ [':'.toUInt8, ':'.toUInt8]

/-- A name with the command in front of it. -/
def withPrefix (cmd name : Text) : Text := if argPrefix cmd <+: name then name else argPrefix cmd ++ name

/-- `AddCommand` -/
def addCommand (x : ShellData P V) (shellCmd : Text) (cmd : ShellCmd V) : ShellErr × ShellData P V :=
  let key := stringTrim shellCmd
  if (find x.mShellCmdCollection key).isSome then (.exist, x)
  else (.noError, { x with mShellCmdCollection := x.mShellCmdCollection ++ [(key, cmd)] })

/-- `AddCommandArgument` -/
def addCommandArgument (x : ShellData P V) (shellCmd shellArg : Text) (arg : ShellArg P V) :
    ShellErr × ShellData P V :=
  let cmd := stringTrim shellCmd
  match find x.mShellCmdCollection cmd with
  | none => (.dontExist, x)
  | some entry =>
    let argName := stringTrim shellArg
    let argName := if argName ∈ entry.ArgNameCollection then argName else argPrefix cmd ++ argName
    if argName ∈ entry.ArgNameCollection ∧ (find x.mShellArgCollection argName).isNone then
      (.noError, { x with mShellArgCollection := assign x.mShellArgCollection (withPrefix cmd argName) arg })
    else (.exist, x)

/-! ## `Parser` -/

/-- `.` of a regular expression. -/
def isAny (c : UInt8) : Bool := c ≠ 10 ∧ c ≠ 13

/-- `S_RegExFnArg` behind its anchor. -/
def regExFnArg : Regex UInt8 :=
  .seq (.group (.many 0 isAny)) (.seq (.item fun c => c = '('.toUInt8)
    (.seq (.group (.many 0 isAny)) (.item fun c => c = ')'.toUInt8)))

/-- `Bof_StringTrim` of blanks and quotation marks. -/
def trimQuotes (s : Text) : Text :=
  (s.rdropWhile fun c => c = ' '.toUInt8 ∨ c = '"'.toUInt8).dropWhile fun c => c = ' '.toUInt8 ∨ c = '"'.toUInt8

/-- The name of the command and the texts of its arguments. -/
def splitCmd (shellCmd : Text) : Text × List Text :=
  match (regExFnArg.firstMatch shellCmd).map Regex.Match.groups with
  | some [cmd, args] =>
    let argCollection := (stringSplit (stringTrim args) [','.toUInt8]).map trimQuotes
    (stringTrim cmd, if argCollection = [[]] then [] else argCollection)
  | _ => (stringTrim shellCmd, [])

/-- The loop over the arguments: the error, the names, which have their prefixes as far as the loop has come, and the
variables. -/
def parseArgs (collection : List (Text × ShellArg P V)) (cmd : Text) :
    List Text → List Text → P × V → ShellErr × List Text × P × V
  | name :: names, text :: texts, x =>
    let name := withPrefix cmd name
    match (find collection name).or (find collection (argPrefix cmd ++ name)) with
    | none => (.dontExist, name :: names, x)
    | some arg =>
      let r := arg (cStr text) x
      if r.1 = .noError then
        let rest := parseArgs collection cmd names texts r.2
        (rest.1, name :: rest.2.1, rest.2.2)
      else (r.1, name :: names, r.2)
  | names, _, x => (.noError, names, x)

/-- `Parser` up to the call of the command. -/
def parser (x : ShellData P V) (shellCmd : Text) : ShellErr × Option (Callback V) × ShellData P V :=
  let (cmd, args) := splitCmd shellCmd
  match find x.mShellCmdCollection cmd with
  | none => (.notFound, none, x)
  | some entry =>
    if args.length = entry.ArgNameCollection.length then
      let r := parseArgs x.mShellArgCollection cmd entry.ArgNameCollection args (x.mScriptPath, x.outside)
      let x := { x with
        mShellCmdCollection := assign x.mShellCmdCollection cmd { entry with ArgNameCollection := r.2.1 }
        mScriptPath := r.2.2.1
        outside := r.2.2.2 }
      if r.1 = .noError then (.noError, some entry.CmdCallback, x) else (r.1, none, x)
    else (.tooManyRefs, none, x)

end BofShell

/-! ## The interpreter -/

/-- What is sent to `OutputStream`. -/
inductive ShellMessage (P : Type) where
  | command (cmdLine : Text)
  | result (shellRes : Text)
  | error (err : ShellErr)
  | execute (scriptPath : P)
  | cannotOpen (err : ShellErr)
  | line (scriptFilename scriptLine : Text)

/-- `BOF_SHELL_PARAM`, and the files. -/
structure ShellParam (P V : Type) where
  /-- `CmdLine_S` after the call; an end of the input may leave it as it is. -/
  InputStream : Option (Text → V → Text × V)
  OutputStream : Option (ShellMessage P → V → V)
  ScriptStopOnError_B : Bool
  FileNameWithExtension : P → Text
  /-- The bytes of a file, or the error of `Bof_OpenFile`. -/
  openFile : P → V → Except ShellErr Text

/-- `BofShell` -/
structure BofShell (P V : Type) where
  mFinish_B : Bool
  mExecScript_B : Bool
  mExecuteOnlyOneCommand_B : Bool
  /-- The bytes behind the position of the file. -/
  mIoScript : Option Text
  data : ShellData P V

namespace BofShell

variable {P V : Type} (param : ShellParam P V)

/-- Send a message. -/
def send (message : ShellMessage P) (x : BofShell P V) : BofShell P V :=
  { x with data := { x.data with
      outside := param.OutputStream.elim x.data.outside fun outputStream => outputStream message x.data.outside } }

/-- Close the script. -/
def closeScript (x : BofShell P V) : BofShell P V := { x with mIoScript := none, mExecScript_B := false }

/-- `ExecScript` with the interpreter that it calls. -/
def execScriptWith (interpreter : BofShell P V → Option (ShellErr × BofShell P V)) (x : BofShell P V) (scriptPath : P) :
    Option (ShellErr × BofShell P V) :=
  let fileName := param.FileNameWithExtension scriptPath
  let x := { x with
    mExecScript_B := fileName ≠ []
    data := { x.data with mScriptPath := scriptPath, mScriptFilename_S := fileName } }
  if x.mExecScript_B then interpreter x else some (.noError, x)

/-- `ShellExec` with the interpreter that it calls. -/
def shellExec (interpreter : BofShell P V → Option (ShellErr × BofShell P V)) (x : BofShell P V) :
    Option (ShellErr × Text × BofShell P V) :=
  let x := if x.mIoScript.isSome then closeScript x else x
  (execScriptWith param interpreter x x.data.mScriptPath).map fun r => (.noError, [], r.2)

/-- The call of a command, with the interpreter that `exec` calls. -/
def callCommand (interpreter : BofShell P V → Option (ShellErr × BofShell P V)) (x : BofShell P V) :
    Callback V → Option (ShellErr × Text × BofShell P V)
  | .quit => some (.noError, [], { x with mFinish_B := true })
  | .exec => shellExec param interpreter x
  | .call run =>
    let r := run x.data.outside
    some (r.1, r.2.1, { x with data := { x.data with outside := r.2.2 } })

/-- `Parser`, and the output of its result. -/
def runCommand (interpreter : BofShell P V → Option (ShellErr × BofShell P V)) (x : BofShell P V) (cmdLine : Text) :
    Option (ShellErr × BofShell P V) :=
  if cmdLine = [] ∨ cmdLine.head? = some '#'.toUInt8 then some (.noError, x)
  else
    let r := parser x.data (cStr cmdLine)
    let x := { x with data := r.2.2 }
    match r.2.1 with
    | none => some (r.1, x)
    | some callback =>
      (callCommand param interpreter x callback).map fun r =>
        (r.1, if r.2.1 = [] then r.2.2 else send param (.result r.2.1) r.2.2)

/-- The script is opened unless it is open. -/
def openScript (x : BofShell P V) : ShellErr × BofShell P V :=
  if x.mIoScript.isSome then (.noError, x)
  else
    let x := send param (.execute x.data.mScriptPath) x
    match param.openFile x.data.mScriptPath x.data.outside with
    | .ok content => (.noError, { x with mIoScript := some content })
    | .error err => (err, closeScript (send param (.cannotOpen err) x))

/-- A line of the open script becomes `CmdLine_S`. -/
def readScript (x : BofShell P V) (cmdLine : Text) : Text × BofShell P V :=
  match x.mIoScript with
  | none => (cmdLine, x)
  | some content =>
    match readLine content with
    | none => (cmdLine, closeScript x)
    | some (line, rest) =>
      let scriptLine := stringTrim line
      (scriptLine, send param (.line x.data.mScriptFilename_S scriptLine) { x with mIoScript := some rest })

/-- The next line of the script: the error, `CmdLine_S` and the shell. -/
def nextLine (x : BofShell P V) (cmdLine : Text) : ShellErr × Text × BofShell P V :=
  let opened := openScript param x
  let read := readScript param opened.2 cmdLine
  (opened.1, read.1, { read.2 with mFinish_B := !read.2.mExecScript_B })

/-- The command line that is waited for, unless there is one. -/
def readInput (x : BofShell P V) (cmdLine : Text) (firstCommand : Bool) : Text × BofShell P V :=
  if x.mExecScript_B = false ∧ firstCommand = false then
    let r := param.InputStream.elim (cmdLine, x.data.outside) fun inputStream => inputStream cmdLine x.data.outside
    (r.1, { x with data := { x.data with outside := r.2 } })
  else (cmdLine, x)

/-- Behind a command: whether the loop is over, the error, `CmdLine_S` and the shell. -/
def afterCommand (x : BofShell P V) (cmdLine : Text) (err : ShellErr) : Bool × ShellErr × Text × BofShell P V :=
  let x := if err = .noError then x else send param (.error err) x
  if err ≠ .noError ∧ x.mExecScript_B ∧ param.ScriptStopOnError_B then (true, err, cmdLine, closeScript x)
  else
    let next := if x.mExecScript_B then nextLine param x cmdLine else (err, cmdLine, x)
    (next.2.2.mFinish_B, next)

/-- The start of `Interpreter`. -/
def setFinish (x : BofShell P V) : BofShell P V :=
  { x with mFinish_B := param.InputStream.isNone ∨ x.mExecuteOnlyOneCommand_B }

/-- The loop of `Interpreter`, and the loops of the interpreters that it calls. -/
def loop : Nat → BofShell P V → Text → Bool → Option (ShellErr × BofShell P V)
  | 0, _, _, _ => none
  | rounds + 1, x, cmdLine, firstCommand =>
    let input := readInput param x cmdLine firstCommand
    (runCommand param (fun x => loop rounds (setFinish param x) [] false) input.2 input.1).bind fun r =>
      let next := afterCommand param r.2 input.1 r.1
      if next.1 then some (next.2.1, next.2.2.2) else loop rounds next.2.2.2 next.2.2.1 false

/-- `Interpreter` -/
def interpreter (rounds : Nat) (x : BofShell P V) (firstCommand : Text) : Option (ShellErr × BofShell P V) :=
  let x := setFinish param x
  if firstCommand = [] then loop param rounds x [] false
  else loop param rounds (send param (.command firstCommand) x) firstCommand true

/-- `Execute` -/
def execute (rounds : Nat) (x : BofShell P V) (shellCmd : Text) : Option (ShellErr × BofShell P V) :=
  (interpreter param rounds { x with mExecuteOnlyOneCommand_B := true } shellCmd).map fun r =>
    (r.1, { r.2 with mExecuteOnlyOneCommand_B := false })

/-- `ExecScript` -/
def execScript (rounds : Nat) (x : BofShell P V) (scriptPath : P) : Option (ShellErr × BofShell P V) :=
  execScriptWith param (fun x => interpreter param rounds x []) x scriptPath

end BofShell

end BofStd
