import BofStd.BofString
import BofStd.Lib.StackMachine

/-!
# The loops of `Normalize`

`Normalize` once more, with its three loops as the code has them: the one over the dots at the start, which may go on
for ever, the one that erases characters of the string it iterates over, and the one that erases tokens around its
iterator.
A loop that is not over after the given number of rounds ends in `none`.
-/

namespace BofStd.BofPath

open BofString

/-- How a call comes to its end. -/
inductive Ending (α : Type) where
  | returns (value : α)
  | throws
  deriving DecidableEq

def Ending.map {α β : Type} (f : α → β) : Ending α → Ending β
  | .returns value => .returns (f value)
  | .throws => .throws

/-- The loop over `./` and `..` at the start of a path; behind the end of the path stands a null byte. -/
def dotLoopRun : Nat → Text → Text → Option (Ending (Except BofErr (Text × Text)))
  | 0, _, _ => none
  | rounds + 1, pwd, path =>
    if path.head? = some '.'.toUInt8 then
      if path[1]? = some '/'.toUInt8 then dotLoopRun rounds pwd (path.drop 2)
      else if path[1]? = some '.'.toUInt8 then
        match parentDirectory pwd with
        | .error err => some (.returns (.error err))
        | .ok pwd => if 3 ≤ path.length then dotLoopRun rounds pwd (path.drop 3) else some .throws
      else dotLoopRun rounds pwd path
    else some (.returns (.ok (pwd, path)))

/-- The loop that erases a slash behind a slash: the iterator is at `it`, and `prev` is the last character that is
kept. -/
def slashLoop : Nat → Text → Nat → UInt8 → Option Text
  | 0, _, _, _ => none
  | rounds + 1, s, it, prev =>
    match s[it]? with
    | none => some s
    | some c =>
      if prev = '/'.toUInt8 ∧ c = '/'.toUInt8 then slashLoop rounds (s.eraseIdx it) it prev
      else slashLoop rounds s (it + 1) c

/-- `std::adjacent_find`, from the iterator on: the first token that is not `..` and is followed by `..`. -/
def adjacentFind (tokens : List Text) (it : Nat) : Option Nat :=
  (((tokens.drop it).zip (tokens.drop (it + 1))).findIdx? fun pair => pair.1 ≠ dotDot ∧ pair.2 = dotDot).map (it + ·)

/-- The loop that erases a token and the `..` behind it, and steps back. -/
def dotDotLoop : Nat → List Text → Nat → Option (Except BofErr (List Text))
  | 0, _, _ => none
  | rounds + 1, tokens, it =>
    match adjacentFind tokens it with
    | none => some (.ok tokens)
    | some it =>
      if it = 0 then some (.error .underrun)
      else dotDotLoop rounds (tokens.take it ++ tokens.drop (it + 2)) (it - 1)

/-- The first part of `Normalize`. -/
def locateRun (rounds : Nat) (currentDirectory : Option Text) (pureFilename : Bool) (rawPath : Text) :
    Option (Ending (Except BofErr (Text × Text))) :=
  if stringIsPresent rawPath [7, 12, 10, 13, 9, 11] then some (.returns (.error .einval))
  else if stringTrim rawPath = [] then some (.returns (.error .empty))
  else
    let path := BofStd.stringReplace (stringTrim rawPath)
    match currentDirectory.map BofStd.stringReplace with
    | none => some (.returns (.error .internal))
    | some pwd =>
      if '/'.toUInt8 ∉ path then some (.returns (.ok (pwd, if pureFilename then path else pwd ++ path)))
      else if path.head? = some '.'.toUInt8 then
        (dotLoopRun rounds pwd path).map fun ending =>
          ending.map fun r => r.map fun (pwd, path) => (pwd, pwd ++ path)
      else some (.returns (.ok (pwd, path)))

/-- The last part of `Normalize`. -/
def reducePathRun (rounds : Nat) (path : Text) : Option (Except BofErr Text) :=
  if path = ['/'.toUInt8] then some (.ok path)
  else
    (slashLoop rounds path 0 (~~~path.headD 0)).bind fun path =>
      (BofString.stringSplit path ['/'.toUInt8]).bind fun tokens =>
        let tokens := tokens.filter fun token => token ≠ ['.'.toUInt8]
        (if 1 < tokens.length then dotDotLoop rounds tokens 0 else some (.ok tokens)).map fun
          | .error err => .error err
          | .ok tokens =>
            if tokens.any fun token => stringIsAllTheSameChar token '.'.toUInt8 then .error .invalidState
            else
              let joined := BofString.stringJoin tokens ['/'.toUInt8]
              let path := if joined.head? = some '/'.toUInt8 then joined else '/'.toUInt8 :: joined
              if ['/'.toUInt8, '/'.toUInt8] <:+: path then .error .invalidState else .ok path

/-- `Normalize`, with a number of rounds for each loop. -/
def normalizeRun (rounds : Nat) (currentDirectory : Option Text) (forbidden : Text) (pureFilename : Bool)
    (rawPath : Text) : Option (Ending (Except BofErr Text × Text)) :=
  (locateRun rounds currentDirectory pureFilename rawPath).bind fun
    | .throws => some .throws
    | .returns (.error err) => some (.returns (.error err, []))
    | .returns (.ok (pwd, path)) =>
      let (diskName, path) := absolute pureFilename pwd path
      if path.head? ≠ some '/'.toUInt8 ∧ ¬ pureFilename then some (.returns (.error .format, diskName))
      else if stringIsPresent path forbidden then some (.returns (.error .einval, diskName))
      else if pureFilename then some (.returns (.ok path, diskName))
      else (reducePathRun rounds path).map fun r => .returns (r, diskName)

end BofStd.BofPath

/-!
# What `Normalize` is for
-/

namespace BofStd.BofPath

/-! ## Paths and their parts -/

/-- A disk, or none. -/
def IsDisk (d : Text) : Prop := d = [] ∨ ∃ x, isAlpha x ∧ d = [x, ':'.toUInt8]

/-- The control characters that `Normalize` refuses first. -/
def controlChars : Text := [7, 12, 10, 13, 9, 11]

/-- A path that `Normalize` returns. -/
structure Normal (path : Text) : Prop where
  root : path.head? = some '/'.toUInt8
  single : ¬ ['/'.toUInt8, '/'.toUInt8] <:+: path
  dots : ∀ token ∈ path.splitOn '/'.toUInt8, stringIsAllTheSameChar token '.'.toUInt8 = false
  allowed : ∀ c ∈ path, c ∉ defaultForbiddenChar ∧ c ≠ 0

/-- The name does not end with a dot or a blank. -/
def Stable (name : Text) : Prop := ∀ c, name.getLast? = some c → c ≠ '.'.toUInt8 ∧ c ∉ defaultTrimCharList

/-! ## Termination -/

/-- All loops of `Normalize` come to their end. -/
def Terminates (currentDirectory : Option Text) (forbidden : Text) (pureFilename : Bool) (rawPath : Text) : Prop :=
  ∃ rounds ending, normalizeRun rounds currentDirectory forbidden pureFilename rawPath = some ending

/-- The directory `k` levels above the working directory. -/
def climb : Nat → Text → Option Text
  | 0, pwd => some pwd
  | k + 1, pwd =>
    match parentDirectory pwd with
    | .ok pwd => climb k pwd
    | .error _ => none

/-- The path begins with parts `./` and `..` with one more character, of the latter not more than there are directories
above the working directory, and behind them stands a dot that is followed by neither a slash nor a dot. -/
def DotAlone (pwd path : Text) : Prop :=
  ∃ (parts : List Text) (rest : Text), path = parts.flatten ++ '.'.toUInt8 :: rest ∧
    (∀ part ∈ parts, part = ['.'.toUInt8, '/'.toUInt8] ∨ ∃ c, part = ['.'.toUInt8, '.'.toUInt8, c]) ∧
    (climb (parts.countP fun part => part ≠ ['.'.toUInt8, '/'.toUInt8]) pwd).isSome ∧
    rest.head? ≠ some '/'.toUInt8 ∧ rest.head? ≠ some '.'.toUInt8

/-- The path holds no control character, and the trimmed path holds a slash and leads to a dot alone. -/
def Hangs (currentDirectory : Option Text) (rawPath : Text) : Prop :=
  stringIsPresent rawPath [7, 12, 10, 13, 9, 11] = false ∧
    '/'.toUInt8 ∈ stringReplace (stringTrim rawPath) ∧
    ∃ pwd ∈ currentDirectory, DotAlone (stringReplace pwd) (stringReplace (stringTrim rawPath))

/-! ## Reduction -/

/-- What a component of a path does to those before it. -/
def action (component : Text) : StackMachine.Action :=
  if component = [] ∨ component = ['.'.toUInt8] then .skip else if component = dotDot then .pop else .push

/-- The components that are kept, the last one first; there are none if `..` leaves the root. -/
def keptComponents (path : Text) : Option (List Text) := StackMachine.run action [] (path.splitOn '/'.toUInt8)

/-- The components joined behind the root, with a slash at the end if the path has one there. -/
def joined (path : Text) (kept : List Text) : Text :=
  '/'.toUInt8 :: stringJoin kept.reverse '/'.toUInt8 ++
    if path.getLast? = some '/'.toUInt8 ∧ kept ≠ [] then ['/'.toUInt8] else []

/-- The path that an absolute path stands for: no component that is kept is made of dots only. -/
def reduced (path : Text) : Option Text :=
  (keptComponents path).bind fun kept =>
    if kept.any fun component => stringIsAllTheSameChar component '.'.toUInt8 then none else some (joined path kept)

/-! ## Relative paths -/

/-- What a call of `Normalize` yields, if it succeeds. -/
def outcome : Except BofErr Text × Text → Option (Text × Text)
  | (.ok path, diskName) => some (path, diskName)
  | (.error _, _) => none

/-- Both paths are normalized to the same path, or both are refused, or `Normalize` returns from neither. -/
def MeansTheSame (currentDirectory : Option Text) (forbidden rawPath rawPath' : Text) : Prop :=
  (normalize currentDirectory forbidden false rawPath).map outcome =
    (normalize currentDirectory forbidden false rawPath').map outcome

/-- A normalized path that ends with a slash. -/
structure IsDirectoryPath (forbidden path : Text) : Prop where
  normal : Normal path
  last : path.getLast? = some '/'.toUInt8
  allowed : stringIsPresent path forbidden = false

/-- A path that holds a slash, but not in front, and no disk. -/
structure IsRelative (forbidden path : Text) : Prop where
  slash : '/'.toUInt8 ∈ path
  root : path.head? ≠ some '/'.toUInt8
  disk : isWindowsDiskPath path = false
  allowed : stringIsPresent path forbidden = false

/-- The first component other than `.` and `..` begins with two dots. -/
def LeadsToDots (path : Text) : Prop :=
  ∃ name ∈ (path.splitOn '/'.toUInt8).find? fun component => component ≠ ['.'.toUInt8] ∧ component ≠ dotDot,
    dotDot <+: name

/-! ## Printing -/

/-- The path that is printed and parsed again, and a copy of it, are valid and equal to it. -/
def ReadsBack (currentDirectory : Option Text) (m : BofPath) : Prop :=
  (∃ m', ofString currentDirectory m.toString false = some m' ∧ m'.valid = true ∧ m'.OperatorEq m) ∧
    ∃ m', m.copy currentDirectory = some m' ∧ m'.valid = true ∧ m'.OperatorEq m

/-! ## The fields of the file name -/

/-- A name with its extension. -/
def fullName (name extension : Text) : Text := name ++ if extension = [] then [] else '.'.toUInt8 :: extension

/-- The name with extension is made of the other two fields. -/
def NamesAgree (m : BofPath) : Prop := m.fileNameWithExtension = fullName m.fileNameWithoutExtension m.extension

/-- The field that is set has the given value, and the other part of the name is as before. -/
def IsSet (m m' : BofPath) : NameOp → Prop
  | .fileNameWithoutExtension s => m'.fileNameWithoutExtension = s ∧ m'.extension = m.extension
  | .fileNameWithExtension s => m'.fileNameWithExtension = s
  | .extension s => m'.extension = s ∧ m'.fileNameWithoutExtension = m.fileNameWithoutExtension

/-- After a call that succeeds, the field is set, the fields agree, and the printed path shows the name. -/
def KeepsNames (m : BofPath) (op : NameOp) : Prop :=
  (m.setName op).2 = .noError → IsSet m (m.setName op).1 op ∧ NamesAgree (m.setName op).1 ∧
    (m.setName op).1.toString = m.diskName ++ m.directoryName ++ (m.setName op).1.fileNameWithExtension

/-- The texts that the setters accept. -/
def NameOp.Accepts : NameOp → Prop
  | .fileNameWithoutExtension s => '.'.toUInt8 ∉ s ∧ isDirectoryDelimiterPresent s = false
  | .fileNameWithExtension s => isDirectoryDelimiterPresent s = false
  | .extension s => '.'.toUInt8 ∉ s ∧ isDirectoryDelimiterPresent s = false

/-- A name with extension that does not end with a dot; a name without extension that the path has already; an
extension that is both the one and the name without extension that the path has already. -/
def Fits (m : BofPath) : NameOp → Prop
  | .fileNameWithoutExtension s => s = m.fileNameWithoutExtension
  | .fileNameWithExtension s => s.getLast? ≠ some '.'.toUInt8
  | .extension s => s = m.extension ∧ s = m.fileNameWithoutExtension

end BofStd.BofPath
