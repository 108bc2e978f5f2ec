import BofStd.Basic
import Mathlib.Data.List.DropRight
import Mathlib.Data.List.Infix

/-!
# Paths: `BofPath`

Texts are lists of bytes, and the null byte may occur in them. `Normalize` does not return, or throws an exception, on
some paths that begin with a dot: functions end in `none` there. The working directory is an argument; it is `none`
if it cannot be read. `mSubdirCollection` is left out, and so is `mCurrentDirectoryName_S`: `InitPathField` has cleared
it when it calls `Normalize`, and the other caller, `CurrentDirectoryName`, which alone sets it, is not here.
-/

namespace BofStd

/-- The type `std::string`. -/
abbrev Text := List UInt8

/-- `S_pBofDefaultTrimCharList_c`. -/
def defaultTrimCharList : Text := [' '.toUInt8, 7, 12, 10, 13, 9, 11]

/-- `Bof_StringTrim` with the default characters. -/
def stringTrim (s : Text) : Text :=
  (s.rdropWhile fun c => c ∈ defaultTrimCharList).dropWhile fun c => c ∈ defaultTrimCharList

/-- `Bof_StringIsPresent`. -/
def stringIsPresent (s charToLookFor : Text) : Bool := s.any fun c => c ∈ charToLookFor

/-- `Bof_StringReplace` of the backslash by a slash: `strchr` finds the null byte, too. -/
def stringReplace (s : Text) : Text := s.map fun c => if c = '\\'.toUInt8 ∨ c = 0 then '/'.toUInt8 else c

/-- `Bof_StringIsAllTheSameChar`. -/
def stringIsAllTheSameChar (s : Text) (c : UInt8) : Bool := s ≠ [] && s.all fun d => d = c

/-- `Bof_StringSplit`: cut at each of the delimiters, and keep the empty tokens. -/
def stringSplit (s splitDelimiter : Text) : List Text := s.splitOnP fun c => c ∈ splitDelimiter

/-- `Bof_StringJoin` with one delimiter. -/
def stringJoin (s : List Text) (joinDelimiter : UInt8) : Text := [joinDelimiter].intercalate s

/-- A path with the characters that are forbidden in it. -/
structure BofPath where
  diskName : Text
  directoryName : Text
  fileNameWithExtension : Text
  fileNameWithoutExtension : Text
  extension : Text
  forbiddenCharacter : Text
  valid : Bool
  deriving DecidableEq

namespace BofPath

/-- The characters that are forbidden if none are given. -/
def defaultForbiddenChar : Text :=
  ['<'.toUInt8, '>'.toUInt8, ':'.toUInt8, '"'.toUInt8, '\\'.toUInt8, '|'.toUInt8, '?'.toUInt8, '*'.toUInt8, 7, 12, 10,
    13, 9, 11]

/-- `isalpha` in the locale `C`. -/
def isAlpha (c : UInt8) : Bool :=
  ('A'.toUInt8 ≤ c && c ≤ 'Z'.toUInt8) || ('a'.toUInt8 ≤ c && c ≤ 'z'.toUInt8)

/-- `IsWindowsDiskPath`. -/
def isWindowsDiskPath : Text → Bool
  | a :: b :: c :: _ => isAlpha a && b = ':'.toUInt8 && (c = '/'.toUInt8 || c = '\\'.toUInt8)
  | _ => false

/-! ## `Normalize` -/

/-- The directory above the working directory, as `..` at the start of a path needs it. -/
def parentDirectory (pwd : Text) : Except BofErr Text :=
  if 2 < pwd.length then
    let above := (pwd.take (pwd.length - 1)).rdropWhile fun c => c ≠ '/'.toUInt8
    if above = [] then .error .tooBig else .ok above
  else .error .tooSmall

/-- The loop over `./` and `..` at the start of a path. -/
def dotLoop : Text → Text → Option (Except BofErr (Text × Text))
  | pwd, [] => some (.ok (pwd, []))
  | pwd, c :: s =>
    if c ≠ '.'.toUInt8 then some (.ok (pwd, c :: s))
    else
      match s with
      -- a lone dot: the loop does not end
      | [] => none
      | d :: s =>
        if d = '/'.toUInt8 then dotLoop pwd s
        else if d = '.'.toUInt8 then
          match parentDirectory pwd, s with
          | .error err, _ => some (.error err)
          -- `substr` throws an exception
          | .ok _, [] => none
          | .ok pwd, _ :: s => dotLoop pwd s
        -- a hidden file: the loop does not end
        else none

/-- The first part of `Normalize`: the working directory, and the path, behind it if the path is relative to it. -/
def locate (currentDirectory : Option Text) (pureFilename : Bool) (rawPath : Text) :
    Option (Except BofErr (Text × Text)) :=
  if stringIsPresent rawPath [7, 12, 10, 13, 9, 11] then some (.error .einval)
  else if stringTrim rawPath = [] then some (.error .empty)
  else
    let path := stringReplace (stringTrim rawPath)
    match currentDirectory.map stringReplace with
    | none => some (.error .internal)
    | some pwd =>
      if '/'.toUInt8 ∉ path then some (.ok (pwd, if pureFilename then path else pwd ++ path))
      else if path.head? = some '.'.toUInt8 then
        (dotLoop pwd path).map fun r => r.map fun (pwd, path) => (pwd, pwd ++ path)
      else some (.ok (pwd, path))

/-- Take the disk off a path. -/
def extractDisk (diskName path : Text) : Text × Text :=
  if isWindowsDiskPath path then (path.take 2, path.drop 2) else (diskName, path)

/-- The second part of `Normalize`: the disk and the path behind it. -/
def absolute (pureFilename : Bool) (pwd path : Text) : Text × Text :=
  let (diskName, path) := extractDisk [] path
  if path.head? ≠ some '/'.toUInt8 ∧ ¬ pureFilename then extractDisk diskName (pwd ++ path) else (diskName, path)

/-- Leave out slashes that follow a slash. -/
def collapse : Text → Text
  | [] => []
  | c :: s => if c = '/'.toUInt8 ∧ s.head? = some '/'.toUInt8 then collapse s else c :: collapse s

/-- The name of the directory above. -/
def dotDot : Text := ['.'.toUInt8, '.'.toUInt8]

/-- The loop over the tokens that are followed by `..`: `token` is at the iterator, the tokens before it are in
reverse order. -/
def resolve : List Text → Text → List Text → Option (List Text)
  | before, token, [] => some (before.reverse ++ [token])
  | before, token, next :: rest =>
    if token ≠ dotDot ∧ next = dotDot then
      match before with
      | [] => none
      | last :: before => resolve before last rest
    else resolve (token :: before) next rest

/-- The tokens of a path without `.` and without `..`. -/
def reduceTokens (path : Text) : Option (List Text) :=
  match (stringSplit (collapse path) ['/'.toUInt8]).filter fun token => token ≠ ['.'.toUInt8] with
  | token :: next :: rest => resolve [] token (next :: rest)
  | tokens => some tokens

/-- The last part of `Normalize`: reduce the path. -/
def reducePath (path : Text) : Except BofErr Text :=
  if path = ['/'.toUInt8] then .ok path
  else
    match reduceTokens path with
    | none => .error .underrun
    | some tokens =>
      if tokens.any fun token => stringIsAllTheSameChar token '.'.toUInt8 then .error .invalidState
      else
        let joined := stringJoin tokens '/'.toUInt8
        let path := if joined.head? = some '/'.toUInt8 then joined else '/'.toUInt8 :: joined
        if ['/'.toUInt8, '/'.toUInt8] <:+: path then .error .invalidState else .ok path

/-- `Normalize`: the normalized path or the error, and the disk. -/
def normalize (currentDirectory : Option Text) (forbidden : Text) (pureFilename : Bool) (rawPath : Text) :
    Option (Except BofErr Text × Text) :=
  (locate currentDirectory pureFilename rawPath).map fun
    | .error err => (.error err, [])
    | .ok (pwd, path) =>
      let (diskName, path) := absolute pureFilename pwd path
      if path.head? ≠ some '/'.toUInt8 ∧ ¬ pureFilename then (.error .format, diskName)
      else if stringIsPresent path forbidden then (.error .einval, diskName)
      else if pureFilename then (.ok path, diskName)
      else (reducePath path, diskName)

/-! ## The fields -/

/-- The text up to the last occurrence of a character, and the text behind it. -/
def cutLast (s : Text) (c : UInt8) : Text × Text := (s.rdropWhile fun d => d ≠ c, s.rtakeWhile fun d => d ≠ c)

/-- The fields of a normalized path, which is not empty. -/
def pathFields (forbidden : Text) (pureFilename : Bool) (diskName path : Text) : BofPath × BofErr :=
  if path.getLast? = some '/'.toUInt8 then (⟨diskName, path, [], [], [], forbidden, true⟩, .noError)
  else
    let (dir, file) := cutLast path '/'.toUInt8
    if dir = [] ∧ ¬ pureFilename then (⟨diskName, [], path, path, [], forbidden, true⟩, .internal)
    else
      let name := if dir ≠ [] ∧ file.getLast? = some '.'.toUInt8 then file.dropLast else file
      -- the last dot, unless it begins a pure file name
      if '.'.toUInt8 ∈ (if dir = [] then file.drop 1 else file) then
        let beforeDot := (cutLast (if pureFilename then path else file) '.'.toUInt8).1.dropLast
        (⟨diskName, dir, name, beforeDot, (cutLast file '.'.toUInt8).2, forbidden, true⟩, .noError)
      else (⟨diskName, dir, name, name, [], forbidden, true⟩, .noError)

/-- The path without a name. -/
def emptyPath (forbidden : Text) : BofPath := ⟨[], [], [], [], [], forbidden, true⟩

/-- `InitPathField`: the path and the error code. -/
def initPathField (currentDirectory forbiddenChar : Option Text) (pureFilename : Bool) (path : Text) :
    Option (BofPath × BofErr) :=
  let forbidden := forbiddenChar.getD defaultForbiddenChar
  (normalize currentDirectory forbidden pureFilename path).map fun
    | (.error .empty, _) => (emptyPath forbidden, .noError)
    | (.error err, diskName) => (⟨diskName, [], [], [], [], forbidden, false⟩, err)
    | (.ok [], diskName) => (⟨diskName, [], [], [], [], forbidden, true⟩, .noError)
    | (.ok path, diskName) => pathFields forbidden pureFilename diskName path

/-- The constructor for a `std::string`. -/
def ofString (currentDirectory : Option Text) (path : Text) (pureFilename : Bool) : Option BofPath :=
  (initPathField currentDirectory none pureFilename path).map Prod.fst

/-- `IsDirectory`. -/
def isDirectory (m : BofPath) : Bool := m.directoryName ≠ [] ∧ m.fileNameWithExtension = []

/-- `ToString` and `FullPathName`, with slashes. -/
def toString (m : BofPath) : Text :=
  m.diskName ++ m.directoryName ++
    if m.isDirectory then [] else
      m.fileNameWithoutExtension ++ if m.extension = [] then [] else '.'.toUInt8 :: m.extension

/-- The constructors and assignments from another `BofPath`: its text is parsed. -/
def copy (currentDirectory : Option Text) (other : BofPath) : Option BofPath :=
  (initPathField currentDirectory (some other.forbiddenCharacter) (other.directoryName = []) other.toString).map
    Prod.fst

/-- `operator==`. -/
def OperatorEq (m other : BofPath) : Prop :=
  m.diskName = other.diskName ∧ m.directoryName = other.directoryName ∧
    m.fileNameWithExtension = other.fileNameWithExtension

/-! ## The setters of the file name -/

/-- `IsDirectoryDelimiterPresent`. -/
def isDirectoryDelimiterPresent (path : Text) : Bool := '/'.toUInt8 ∈ path || '\\'.toUInt8 ∈ path

/-- The setters. -/
inductive NameOp where
  | fileNameWithoutExtension (fileNameWithoutExtension : Text)
  | fileNameWithExtension (fileNameWithExtension : Text)
  | extension (extension : Text)

/-- A call of a setter: the path and the error code. -/
def setName (m : BofPath) : NameOp → BofPath × BofErr
  | .fileNameWithoutExtension s =>
    if '.'.toUInt8 ∉ s then
      if ¬ isDirectoryDelimiterPresent s then ({ m with fileNameWithoutExtension := s }, .noError) else (m, .einval)
    else (m, .einval)
  | .fileNameWithExtension s =>
    if ¬ isDirectoryDelimiterPresent s then
      if '.'.toUInt8 ∉ s then
        ({ m with fileNameWithExtension := s, extension := [], fileNameWithoutExtension := s }, .noError)
      else
        let (name, extension) := cutLast s '.'.toUInt8
        ({ m with fileNameWithExtension := s, extension := extension, fileNameWithoutExtension := name.dropLast },
          .noError)
    else (m, .einval)
  | .extension s =>
    if '.'.toUInt8 ∉ s then
      -- the extension is written to the name without extension
      if ¬ isDirectoryDelimiterPresent s then ({ m with fileNameWithoutExtension := s }, .noError) else (m, .einval)
    else (m, .einval)

end BofPath

end BofStd
