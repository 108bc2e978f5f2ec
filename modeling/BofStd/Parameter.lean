import BofStd.IpAddress
import BofStd.Lib.Retry

/-!
# Parameters (`bofparameter.cpp`)

`S_Parse` for texts, dates and times, integers and enumerations. The work buffer is a list with positions for the
pointers into it, and what is stored is collected. The environment reads numbers, dates and regular expressions, and
compares and converts numbers of type `double`.
-/

namespace BofStd

/-- The integer types of `BOFPARAMETER_ARG_TYPE`. -/
inductive IntType where
  | uint8
  | uint16
  | uint32
  | uint64
  | int8
  | int16
  | int32
  | int64
  deriving DecidableEq

/-- `BOFPARAMETER_ARG_TYPE`. -/
inductive BofParameterArgType where
  | charString
  | stdString
  | date
  | time
  | dateTime
  | integer (t : IntType)
  | enum
  deriving DecidableEq

/-- `BOFPARAMETER`. -/
structure BofParameter (D : Type) where
  Format_S : Text
  ArgFlag_E : UInt32
  ArgType_E : BofParameterArgType
  Min_lf : D
  Max_lf : D
  /-- Whether there is a `pValue`. -/
  pValue : Bool
  ArrayElementSize_U32 : UInt32
  ArrayCapacity_U32 : UInt32
  StringToEnum : Option (Text → Int32)

/-- The environment. -/
structure ParameterEnv (D Tm : Type) where
  /-- The number that `sscanf` reads with the hexadecimal or the other conversion of a type. -/
  sscanf : IntType → Bool → Text → Option Int
  /-- `static_cast` to a type. -/
  cast : IntType → D → Int
  less : D → D → Bool
  /-- `strptime` of a text and a format: the date, and the text behind it. -/
  strptime : Text → Text → Option (Tm × Text)
  atoi : Text → UInt32
  /-- `regex_match` of a text and a pattern. -/
  regexMatch : Text → Text → Bool

/-- What is stored in an element. -/
inductive ParameterValue (Tm : Type) where
  | number (t : IntType) (v : Int)
  | chars (bytes : Text)
  | string (s : Text)
  | dateTime (tm : Tm) (uS : UInt32)
  deriving DecidableEq

/-- The place of an element: an offset from `pValue`, or the end of a `std::vector`. -/
inductive ElementPlace where
  | offset (bytes : UInt32)
  | vector
  deriving DecidableEq

/-- `BOFPARAMETER_PARSE_CALLBACK`: the error for an index, an error and a text. -/
abbrev ParseCallback : Type := UInt32 → BofErr → Text → BofErr

namespace BofParameter

open StdString Retry

variable {D Tm : Type}

/-! ## Flags and texts -/

abbrev COMA_IS_NOT_A_SEPARATOR : UInt32 := 0x00000080

abbrev STR_FORMAT_ISREGEXP : UInt32 := 0x00020000

abbrev READ_ONLY : UInt32 := 0x80000000

/-- `Bof_IsAnyBitFlagSet`. -/
def isAnyBitFlagSet (flags mask : UInt32) : Bool := flags &&& mask ≠ 0

/-- `strchr` of a comma, from a position on. -/
def strchrComma (s : Text) (pos : Nat) : Option Nat :=
  ((cStr (s.drop pos)).findIdx? fun c => c = ','.toUInt8).map (pos + ·)

/-- `sprintf` with `%d`. -/
def sprintfInt (v : Int32) : Text :=
  (if v < 0 then ['-'.toUInt8] else []) ++ SocketAddressComponent.decimal v.toInt.natAbs

/-- `strncpy`, which fills up with zeros. -/
def strncpy (s : Text) (n : Nat) : Text := s.take n ++ List.replicate (n - s.length) 0

/-- The text in front of the first `%q` and the one behind it. -/
def findPercentQ : Text → Option (Text × Text)
  | c :: d :: s =>
    if c = '%'.toUInt8 ∧ d = 'q'.toUInt8 then some ([], s)
    else (findPercentQ (d :: s)).map fun parts => (c :: parts.1, parts.2)
  | _ => none

/-! ## `CheckAndGetValueFromString` -/

/-- The error, and the number afterwards. -/
def checkAndGetValueFromString (env : ParameterEnv D Tm) (p : BofParameter D) (t : IntType) (optVal : Text) (val : Int) :
    BofErr × Int :=
  let hexa := optVal.length > 2 ∧ optVal.getD 0 0 = '0'.toUInt8 ∧
    (optVal.getD 1 0 = 'x'.toUInt8 ∨ optVal.getD 1 0 = 'X'.toUInt8)
  let read :=
    if optVal = [] then some (env.cast t p.Min_lf)
    else if hexa then env.sscanf t true (optVal.drop 2)
    else env.sscanf t false optVal
  match read with
  | none => (.parser, val)
  | some v =>
    if env.less p.Min_lf p.Max_lf ∧ (v < env.cast t p.Min_lf ∨ v > env.cast t p.Max_lf) then (.outOfRange, v)
    else (.noError, v)

/-! ## `S_Parse` -/

/-- The variables of the loop. -/
structure ParseState (Tm : Type) where
  Index_U32 : UInt32
  /-- What `pTheOptVal_c` points into: the value, or the copy of it that is cut. -/
  pAllTheOptVal_c : Text
  pTheOptVal_c : Nat
  pComaSep_c : Option Nat
  Len_i : Int
  LastArrayArg_B : Bool
  /-- The number of the type of the parameter. -/
  Val : Int
  stored : List (ElementPlace × ParameterValue Tm)

/-- The text at `pTheOptVal_c`. -/
def ParseState.optVal (s : ParseState Tm) : Text := cStr (s.pAllTheOptVal_c.drop s.pTheOptVal_c)

/-- The place of the element for an index. -/
def elementPlace (p : BofParameter D) (index : UInt32) : Except BofErr ElementPlace :=
  if p.pValue = false then .error .init
  else if p.ArrayCapacity_U32 ≠ 0 then
    if index < p.ArrayCapacity_U32 then
      if p.ArrayCapacity_U32 = 0xFFFFFFFF then .ok .vector
      else if p.ArrayElementSize_U32 ≠ 0 then .ok (.offset (index * p.ArrayElementSize_U32))
      else .error .tooSmall
    else .error .outOfRange
  else .ok (.offset 0)

/-- The length of a text is checked, and it is not between the bounds. -/
def wrongLen (env : ParameterEnv D Tm) (p : BofParameter D) (len : Int) : Bool :=
  let lenMin := env.cast .int32 p.Min_lf
  let lenMax := env.cast .int32 p.Max_lf
  (lenMin ≠ 0 ∨ lenMax ≠ 0) ∧ lenMin ≤ lenMax ∧ (len < lenMin ∨ len > lenMax)

/-- The first `switch`: the error, and the number afterwards. -/
def checkElement (env : ParameterEnv D Tm) (p : BofParameter D) (shortOpt : Bool) (s : ParseState Tm) : BofErr × Int :=
  match p.ArgType_E with
  | .charString => (if wrongLen env p s.Len_i then .wrongSize else .noError, s.Val)
  | .stdString => (if wrongLen env p s.Len_i then .wrongSize else .noError, s.Val)
  | .date => (.noError, s.Val)
  | .time => (.noError, s.Val)
  | .dateTime => (.noError, s.Val)
  | .integer t => if shortOpt then (.noError, s.Val) else checkAndGetValueFromString env p t s.optVal s.Val
  | .enum =>
    let optVal := p.StringToEnum.elim s.optVal fun stringToEnum => sprintfInt (stringToEnum s.optVal)
    if shortOpt then (.noError, s.Val) else checkAndGetValueFromString env p .int32 optVal s.Val

/-- The second `switch` for texts: the error, what is stored, and `ContinueIfError_B`. -/
def storeText (env : ParameterEnv D Tm) (p : BofParameter D) (place : ElementPlace) (s : ParseState Tm) :
    BofErr × List (ElementPlace × ParameterValue Tm) × Bool :=
  if isAnyBitFlagSet p.ArgFlag_E STR_FORMAT_ISREGEXP ∧ env.regexMatch s.optVal p.Format_S = false then
    (.format, [], true)
  else
    let len := if wrongLen env p s.Len_i then env.cast .int32 p.Max_lf else s.Len_i
    if p.ArgType_E = .charString then
      if place = .vector then (.notAvailable, [], false)
      else (.noError, [(place, .chars (strncpy s.optVal len.toNat ++ [0]))], false)
    else (.noError, [(place, .string ((s.pAllTheOptVal_c.drop s.pTheOptVal_c).take len.toNat))], false)

/-- The second `switch` for dates and times, which are read from the whole value. -/
def storeDateTime (env : ParameterEnv D Tm) (p : BofParameter D) (optVal : Text) (defaultFormat : String)
    (place : ElementPlace) : BofErr × List (ElementPlace × ParameterValue Tm) × Bool :=
  let format := if p.Format_S = [] then defaultFormat.toList.map Char.toUInt8 else cStr p.Format_S
  let percentQ := findPercentQ format
  match env.strptime optVal (percentQ.elim format fun parts => parts.1 ++ parts.2) with
  | none => (.parser, [], false)
  | some (tm, rest) =>
    (.noError, [(place, .dateTime tm (if percentQ.isSome ∧ rest ≠ [] then env.atoi rest else 0))], false)

/-- What stores the element. -/
def storeElement (env : ParameterEnv D Tm) (p : BofParameter D) (shortOpt : Bool) (optVal : Text) (place : ElementPlace)
    (s : ParseState Tm) : BofErr × List (ElementPlace × ParameterValue Tm) × Bool :=
  if isAnyBitFlagSet p.ArgFlag_E READ_ONLY then (.write, [], false)
  else
    match p.ArgType_E with
    | .charString => storeText env p place s
    | .stdString => storeText env p place s
    | .date => storeDateTime env p optVal "%Y-%m-%d" place
    | .time => storeDateTime env p optVal "%H:%M:%S" place
    | .dateTime => storeDateTime env p optVal "%Y-%m-%d %H:%M:%S" place
    | .integer t => (.noError, [(place, .number t (if shortOpt then env.cast t p.Min_lf else s.Val))], false)
    | .enum => (.noError, [(place, .number .int32 (if shortOpt then env.cast .int32 p.Min_lf else s.Val))], false)

/-- The element at the index: the error, the number, what is stored, and `ContinueIfError_B`. -/
def parseElement (env : ParameterEnv D Tm) (p : BofParameter D) (parseCallback : Option ParseCallback) (shortOpt : Bool)
    (optVal : Text) (place : ElementPlace) (s : ParseState Tm) :
    BofErr × Int × List (ElementPlace × ParameterValue Tm) × Bool :=
  let (err, val) := checkElement env p shortOpt s
  let err := if err ≠ .noError then parseCallback.elim err fun callback => callback s.Index_U32 err optVal else err
  if err = .noError then
    let (err, stored, continueIfError) := storeElement env p shortOpt optVal place { s with Val := val }
    (err, val, stored, continueIfError)
  else (err, val, [], false)

/-- The next piece of the list: the variables, and whether an error of a regular expression is forgotten. -/
def nextPiece (s : ParseState Tm) : ParseState Tm × Bool :=
  match s.pComaSep_c with
  | none => (s, false)
  | some coma =>
    if s.LastArrayArg_B then ({ s with pComaSep_c := none }, false)
    else
      let s := { s with Index_U32 := s.Index_U32 + 1 }
      match strchrComma s.pAllTheOptVal_c (coma + 1) with
      | some next =>
        ({ s with
            Len_i := next - coma - 1
            pTheOptVal_c := coma + 1
            pComaSep_c := some next
            pAllTheOptVal_c := s.pAllTheOptVal_c.set next 0 }, true)
      | none =>
        if s.pAllTheOptVal_c.getD (coma + 1) (0 : UInt8) = (0 : UInt8) then ({ s with pComaSep_c := none }, true)
        else
          ({ s with
              pTheOptVal_c := coma + 1
              pComaSep_c := some (coma + 1)
              LastArrayArg_B := true
              Len_i := (cStr (s.pAllTheOptVal_c.drop (coma + 1))).length }, true)

/-- The body of the loop. -/
def parseRound (env : ParameterEnv D Tm) (p : BofParameter D) (parseCallback : Option ParseCallback) (shortOpt : Bool)
    (optVal : Text) (s : ParseState Tm) :
    Round (ParseState Tm) (BofErr × List (ElementPlace × ParameterValue Tm)) :=
  match elementPlace p s.Index_U32 with
  | .error err => .stop (err, s.stored)
  | .ok place =>
    let (err, val, stored, continueIfError) := parseElement env p parseCallback shortOpt optVal place s
    let (s, next) := nextPiece { s with Val := val, stored := s.stored ++ stored }
    let err := if next ∧ continueIfError then .noError else err
    if s.pComaSep_c.isSome ∧ err = .noError then .again s else .stop (err, s.stored)

/-- The variables in front of the loop. The value of an array is copied and cut at its first comma. -/
def parseStart (p : BofParameter D) (shortOpt : Bool) (index : UInt32) (optVal : Text) : ParseState Tm :=
  let s : ParseState Tm := ⟨index, optVal, 0, none, optVal.length, false, 0, []⟩
  if shortOpt = false ∧ p.ArrayCapacity_U32 ≠ 0 ∧ isAnyBitFlagSet p.ArgFlag_E COMA_IS_NOT_A_SEPARATOR = false then
    match strchrComma optVal 0 with
    | some coma => { s with Len_i := coma, pComaSep_c := some coma, pAllTheOptVal_c := optVal.set coma 0 }
    | none => s
  else s

/-- `S_Parse`: the error, and what is stored. -/
def parse (env : ParameterEnv D Tm) (p : BofParameter D) (parseCallback : Option ParseCallback) (index : UInt32)
    (optVal : Option Text) : Option (BofErr × List (ElementPlace × ParameterValue Tm)) :=
  let shortOpt := optVal.isNone
  let optVal := cStr (optVal.getD ['0'.toUInt8])
  if optVal.length < 0x1000 then
    loop (parseRound env p parseCallback shortOpt optVal) (optVal.length + 1) (parseStart p shortOpt index optVal)
  else some (.einval, [])

end BofParameter

end BofStd
